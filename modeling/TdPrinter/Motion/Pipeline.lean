import TdPrinter.Foundation.Machine
import TdPrinter.Motion.InputMotion

/-!
# Conservation of motions

The machine of this file is the motion queue with its producer and its interrupt.
A call of `stepBlock_inputMotion` goes through its phases one piece at a time, the
interrupt can come between any two pieces while the step timer runs, and
`stepBlock_forceStop` is called between calls.  (Within `stepBlock_forceStop` the
timer stands still and nothing else runs, so it is a single step here.)

`history` records what happens to the queue.  An insertion is an `enqueue`; a
`dequeue` is recorded when `tail` is seen to move, with the command that the step
generator then works on; a forced stop is a `flush`.  `Pipeline.Conserves` says that
this history is one of a first-in first-out queue, that the indices are sound, that
`STEP_EVENT_BLOCK_IDLE` and the timer agree between calls, and that no step is lost.

All of it holds with one exception.  If the interrupt finishes everything queued,
the new motion included, between the insertion and the test of
`STEP_EVENT_BLOCK_IDLE`, the test clears the flag that the interrupt has just set
and finds nothing to load.  The flag is then clear although the timer stands still,
and no later motion is ever started.  `conserves_iff` shows that nothing else can go
wrong.
-/

namespace TdPrinter

/-- A motion as callers of `stepBlock_inputMotion` make it. -/
structure GoodMotion (R : Type*) where
  line : MotionLine R
  nonneg : ∀ i, 0 ≤ line.steps i
  le_masterStep : ∀ i, line.steps i ≤ line.masterStep
  moves : ∃ i, line.steps i ≠ 0

/-- The motion queue, its producer and what has happened so far. -/
structure Pipeline (R : Type*) where
  sb : StepBlock R
  phase : InputPhase R
  history : List (QueueEvent Command)
  /-- end switches have been enabled at some time -/
  triggered : Bool

inductive PipelineAction (R : Type*)
  | call (motion : GoodMotion R)
  | move (m : InputMove R)
  | tick (param : Param R) (pins : TriggerPins)
  | forceStop
  | setTrigger (on : Bool)

section

variable {R : Type*}

/-- The loads between two states, seen in `tail`. -/
def loadEvents (before after : StepBlock R) : List (QueueEvent Command) :=
  if after.tail = before.tail then [] else [.dequeue after.currentLine.toCommand]

theorem loadEvents_same {before after : StepBlock R} (htail : after.tail = before.tail) :
    loadEvents before after = [] := by
  rw [loadEvents, if_pos htail]

/-- The initialised idle state, with the axes at `p₀`. -/
def Pipeline.boot [Zero R] (p₀ : Axis → ℤ) : Pipeline R where
  sb := { stepBlockInit with stepAxis := stepAxisSetHardPos stepAxisInit p₀ }
  phase := .idle
  history := []
  triggered := false

end

section

variable {R : Type*} [Field R] [LinearOrder R] [FloorRing R] [Sqrtf R]

def Pipeline.step (s : Pipeline R) : PipelineAction R → Option (Pipeline R)
  | .call motion =>
      match s.phase with
      | .idle =>
          let r := stepBlockInputMotion s.sb motion.line
          some { s with sb := r.2, phase := r.1 }
      | _ => none
  | .move m =>
      (inputMove s.phase s.sb m).map fun r =>
        let events :=
          match r.1 with
          | .inserted block => [.enqueue block.toCommand]
          | _ => loadEvents s.sb r.2
        { s with sb := r.2, phase := r.1, history := s.history ++ events }
  | .tick param pins =>
      if s.sb.timer.enabled then
        let sb := stepBlockISR param pins s.sb
        some { s with sb := sb, history := s.history ++ loadEvents s.sb sb }
      else none
  | .forceStop =>
      match s.phase with
      | .idle =>
          some { s with
            sb := stepBlockForceStopEnd (stepBlockForceStopBegin s.sb)
            history := s.history ++ [.flush] }
      | _ => none
  | .setTrigger on =>
      some { s with
        sb := { s.sb with stepAxis := { s.sb.stepAxis with enableTrigger := on } }
        triggered := s.triggered || on }

variable (R) in
def pipeline : Machine (Pipeline R) (PipelineAction R) := ⟨Pipeline.step⟩

/-! ## What is conserved -/

omit [Field R] [LinearOrder R] [FloorRing R] [Sqrtf R] in
/-- The conservation laws, for axes that started at `p₀`. -/
structure Pipeline.Conserves (p₀ : Axis → ℤ) (s : Pipeline R) : Prop where
  len_le : s.sb.len ≤ motionBufferSize - 1
  head_eq : s.sb.head = slot s.sb.tail s.sb.len
  /-- the slot that the next insertion writes holds no queued motion -/
  slot_free : ∀ k < s.sb.len, slot s.sb.tail k ≠ s.sb.head
  /-- motions are loaded once, in the order in which they were accepted, unless a
  forced stop discards them -/
  fifo : History s.history s.sb.pending
  idle_iff : s.phase = .idle → (.blockIdle ∈ s.sb.event.set ↔ s.sb.timer.enabled = false)
  drained : s.phase = .idle → s.sb.timer.enabled = false → s.sb.len = 0
  /-- no step is lost while there are no end switches and no forced stops -/
  balance : s.triggered = false → .flush ∉ s.history → ∀ i,
    s.sb.stepAxis.hardPos i + s.sb.stepAxis.remaining i + signedSteps s.sb.pending i =
      p₀ i + signedSteps (enqueued s.history) i

omit [Field R] [LinearOrder R] [FloorRing R] [Sqrtf R] in
/-- What is loaded and what is still queued are motions that were accepted, in the
same order and none of them twice; without a forced stop none is missing. -/
theorem Pipeline.Conserves.loads_in_order {p₀ : Axis → ℤ} {s : Pipeline R}
    (h : s.Conserves p₀) :
    (dequeued s.history ++ s.sb.pending).Sublist (enqueued s.history) ∧
      (.flush ∉ s.history → enqueued s.history = dequeued s.history ++ s.sb.pending) :=
  ⟨h.fifo.sublist, h.fifo.enqueued_eq⟩

/-- The condition on a step: the test of `STEP_EVENT_BLOCK_IDLE` at the end of
`stepBlock_inputMotion` does not find the flag set over an empty queue. -/
def Pipeline.KeepsFlag (s : Pipeline R) (a : PipelineAction R) : Prop :=
  ∀ param, a = .move (.idleTest param) → ¬ (.blockIdle ∈ s.sb.event.set ∧ s.sb.len = 0)

/-- The invariant behind the conservation laws. -/
structure Pipeline.Inv (p₀ : Axis → ℤ) (s : Pipeline R) : Prop where
  phase_inv : s.phase.Inv s.sb
  armed : s.sb.Armed
  drained : s.phase.holding = false → s.sb.timer.enabled = false → s.sb.queue = []
  fifo : History s.history s.sb.pending
  tallied : s.sb.Tallied
  nonneg : s.phase.Nonneg
  quiet : s.triggered = false → .flush ∉ s.history →
    s.sb.Undisturbed ∧ ∀ i, s.sb.projected i = p₀ i + signedSteps (enqueued s.history) i

omit [Field R] [LinearOrder R] [FloorRing R] [Sqrtf R] in
theorem Pipeline.Inv.conserves {p₀ : Axis → ℤ} {s : Pipeline R} (h : s.Inv p₀) :
    s.Conserves p₀ where
  len_le := h.phase_inv.sound.len_le
  head_eq := h.phase_inv.sound.head_eq
  slot_free _ hk := h.phase_inv.sound.slot_ne_head hk
  fifo := h.fifo
  idle_iff _ := ⟨h.phase_inv.sound.idle_off, h.armed⟩
  drained hidle hoff := by
    have hqueue := h.drained (by rw [hidle]; rfl) hoff
    simpa [StepBlock.queue] using congrArg List.length hqueue
  balance htrig hflush := (h.quiet htrig hflush).2

omit [LinearOrder R] [FloorRing R] [Sqrtf R] in
theorem Pipeline.boot_inv (p₀ : Axis → ℤ) : (Pipeline.boot p₀ : Pipeline R).Inv p₀ where
  phase_inv := ⟨init_sound.withStepAxis _, fun _ h => by simp [Pipeline.boot] at h⟩
  armed := init_armed
  drained _ _ := rfl
  fifo := History.empty
  tallied := by
    have hinit : (stepBlockInit : StepBlock R).Tallied := init_tallied
    exact ⟨⟨hinit.counted.busy_need, hinit.counted.step_le⟩, hinit.queued_nonneg⟩
  nonneg _ h := by simp [Pipeline.boot, InputPhase.waiting] at h
  quiet _ _ := by
    have hinit : (stepBlockInit : StepBlock R).Undisturbed := init_undisturbed
    refine ⟨⟨hinit.complete, rfl, hinit.settled⟩, ?_⟩
    intro i
    simp [Pipeline.boot, StepBlock.projected, StepAxis.remaining, stepBlockInit, stepBlockReset,
      stepAxisSetHardPos, stepAxisInit, stepAxisReset, StepBlock.pending, StepBlock.queue, enqueued]

/-! ## One step -/

omit [Field R] [LinearOrder R] [FloorRing R] [Sqrtf R] in
/-- A change of the event that does not concern `STEP_EVENT_BLOCK_IDLE` keeps all of
the invariant but the phase. -/
theorem Pipeline.Inv.withEvent {p₀ : Axis → ℤ} {s : Pipeline R} (h : s.Inv p₀)
    {phase : InputPhase R} {e : Event Thread StepEvent} {history : List (QueueEvent Command)}
    (hphase : phase.Inv { s.sb with event := e })
    (hidle : .blockIdle ∈ e.set ↔ .blockIdle ∈ s.sb.event.set)
    (hholding : phase.holding = false → s.phase.holding = false)
    (hnonneg : phase.Nonneg)
    (hhistory : history = s.history) :
    Pipeline.Inv p₀
      { s with sb := { s.sb with event := e }, phase := phase, history := history } where
  phase_inv := hphase
  armed hoff := hidle.mpr (h.armed hoff)
  drained hheld hoff := h.drained (hholding hheld) hoff
  fifo := by rw [hhistory]; exact h.fifo
  tallied := ⟨h.tallied.counted, h.tallied.queued_nonneg⟩
  nonneg := hnonneg
  quiet htrig hflush := by
    subst hhistory
    obtain ⟨⟨hcomplete, htrigger, hsettled⟩, hproj⟩ := h.quiet htrig hflush
    exact ⟨⟨hcomplete, htrigger, hsettled⟩, hproj⟩

omit [Sqrtf R] in
/-- A load is recorded as the `dequeue` of the oldest motion. -/
theorem Loads.events {sb sb' : StepBlock R} {line : MotionLine R} {rest : List (MotionLine R)}
    (h : Loads sb sb' line rest) : loadEvents sb sb' = [.dequeue line.toCommand] := by
  rw [loadEvents, if_neg h.tail_ne, h.currentLine_eq]

omit [Field R] [LinearOrder R] [FloorRing R] [Sqrtf R] in
theorem enqueued_append_dequeue (h : List (QueueEvent Command)) (c : Command) :
    enqueued (h ++ [.dequeue c]) = enqueued h := by simp [enqueued]

omit [Sqrtf R] in
/-- What an interrupt adds to the record is no flush and no insertion, and the record
stays that of the queue. -/
theorem Pipeline.Inv.isr_history {p₀ : Axis → ℤ} {s : Pipeline R} (h : s.Inv p₀)
    (htimer : s.sb.timer.enabled = true) (param : Param R) (pins : TriggerPins) :
    History (s.history ++ loadEvents s.sb (stepBlockISR param pins s.sb))
        (stepBlockISR param pins s.sb).pending ∧
      (∀ i, signedSteps (enqueued (s.history ++ loadEvents s.sb (stepBlockISR param pins s.sb))) i =
        signedSteps (enqueued s.history) i) ∧
      (.flush ∉ s.history ++ loadEvents s.sb (stepBlockISR param pins s.sb) →
        .flush ∉ s.history) := by
  have htail := execute_tail param pins s.sb
  have hpending := execute_pending param pins s.sb
  obtain ⟨-, ⟨-, heq⟩ | ⟨-, ⟨line, rest, hload⟩ | hstop⟩⟩ :=
    isr_cases param pins h.phase_inv.sound htimer
  · rw [loadEvents_same (by rw [heq, htail]), List.append_nil, heq, hpending]
    exact ⟨h.fifo, fun _ => rfl, id⟩
  · have hone : loadEvents s.sb (stepBlockISR param pins s.sb) = [.dequeue line.toCommand] := by
      rw [← hload.events, loadEvents, loadEvents, htail]
    rw [hone]
    refine ⟨?_, fun i => by rw [enqueued_append_dequeue], ?_⟩
    · apply History.dequeue
      rw [← hload.pending_before, hpending]
      exact h.fifo
    · intro hflush hmem
      exact hflush (List.mem_append_left _ hmem)
  · rw [loadEvents_same (hstop.tail_eq.trans htail), List.append_nil]
    refine ⟨?_, fun _ => rfl, id⟩
    have hempty : (stepBlockISR param pins s.sb).pending = s.sb.pending := by
      rw [← hpending, StepBlock.pending, StepBlock.pending, hstop.queue_before, hstop.queue_after]
    rw [hempty]
    exact h.fifo

omit [Sqrtf R] in
theorem Pipeline.Inv.tick {p₀ : Axis → ℤ} {s : Pipeline R} (h : s.Inv p₀)
    (htimer : s.sb.timer.enabled = true) (param : Param R) (pins : TriggerPins) :
    Pipeline.Inv p₀
      { s with
        sb := stepBlockISR param pins s.sb
        history := s.history ++ loadEvents s.sb (stepBlockISR param pins s.sb) } := by
  have hsound := h.phase_inv.sound
  obtain ⟨harmed, hdrained⟩ := isr_armed param pins hsound htimer
  obtain ⟨hfifo, hsame, hflushes⟩ := h.isr_history htimer param pins
  refine ⟨h.phase_inv.isr htimer param pins, harmed, fun _ => hdrained, hfifo,
    h.tallied.isr hsound htimer param pins, h.nonneg, ?_⟩
  intro htrig hflush
  obtain ⟨hundisturbed, hproj⟩ := h.quiet htrig (hflushes hflush)
  obtain ⟨hundisturbed', hproj'⟩ := hundisturbed.isr hsound h.tallied htimer param pins
  refine ⟨hundisturbed', ?_⟩
  intro i
  show _ = p₀ i + signedSteps (enqueued (s.history ++ _)) i
  rw [hproj' i, hsame i]
  exact hproj i

omit [Field R] [LinearOrder R] [FloorRing R] [Sqrtf R] in
theorem Pipeline.Inv.insert {p₀ : Axis → ℤ} {s : Pipeline R} {block : MotionLine R}
    (h : s.Inv p₀) (hphase : (InputPhase.inserted block).Inv (stepBlockInsert s.sb block))
    (hroom : s.sb.HasRoom) (htallied : (stepBlockInsert s.sb block).Tallied)
    (hmoves : s.sb.Undisturbed → (stepBlockInsert s.sb block).Undisturbed ∧
      ∀ i, (stepBlockInsert s.sb block).projected i =
        s.sb.projected i + block.toCommand.signed i) :
    Pipeline.Inv p₀
      { s with
        sb := stepBlockInsert s.sb block
        phase := .inserted block
        history := s.history ++ [.enqueue block.toCommand] } := by
  refine ⟨hphase, h.armed, fun hheld => by simp [InputPhase.holding] at hheld, ?_, htallied,
    fun _ hblock => by simp [InputPhase.waiting] at hblock, ?_⟩
  · rw [insert_pending h.phase_inv.sound hroom block]
    exact h.fifo.enqueue _
  · intro htrig hflush
    obtain ⟨hquiet, hproj⟩ := h.quiet htrig fun hmem => hflush (List.mem_append_left _ hmem)
    obtain ⟨hquiet', hproj'⟩ := hmoves hquiet
    refine ⟨hquiet', ?_⟩
    intro i
    rw [hproj' i, hproj i]
    simp [enqueued, add_assoc]

theorem Pipeline.Inv.replan {p₀ : Axis → ℤ} {s : Pipeline R} {block : MotionLine R}
    (h : s.Inv p₀) (hphase : InputPhase.planned.Inv (stepBlockReplan s.sb block))
    (htallied : (stepBlockReplan s.sb block).Tallied)
    (hmoves : s.sb.Undisturbed → (stepBlockReplan s.sb block).Undisturbed ∧
      ∀ i, (stepBlockReplan s.sb block).projected i = s.sb.projected i) :
    Pipeline.Inv p₀
      { s with
        sb := stepBlockReplan s.sb block
        phase := .planned
        history := s.history ++ loadEvents s.sb (stepBlockReplan s.sb block) } := by
  have hpending := replan_pending h.phase_inv.sound block
  obtain ⟨buf, hbuf⟩ := replan_frame s.sb block
  rw [loadEvents_same (by rw [hbuf]), List.append_nil]
  refine ⟨hphase, ?_, fun hheld => by simp [InputPhase.holding] at hheld, ?_, htallied,
    fun _ hblock => by simp [InputPhase.waiting] at hblock, ?_⟩
  · rw [hbuf]
    exact h.armed
  · rw [hpending]
    exact h.fifo
  · intro htrig hflush
    obtain ⟨hquiet, hproj⟩ := h.quiet htrig hflush
    obtain ⟨hquiet', hproj'⟩ := hmoves hquiet
    exact ⟨hquiet', fun i => (hproj' i).trans (hproj i)⟩

omit [Sqrtf R] in
/-- The test at the end, if it does not find the flag set over an empty queue. -/
theorem Pipeline.Inv.idleTest {p₀ : Axis → ℤ} {s : Pipeline R} {param : Param R}
    (h : s.Inv p₀) (hphase : InputPhase.idle.Inv (stepBlockIdleTest param s.sb))
    (hfound : ¬ (.blockIdle ∈ s.sb.event.set ∧ s.sb.len = 0))
    (htallied : (stepBlockIdleTest param s.sb).Tallied)
    (hmoves : s.sb.Undisturbed → (stepBlockIdleTest param s.sb).Undisturbed ∧
      ∀ i, (stepBlockIdleTest param s.sb).projected i = s.sb.projected i) :
    Pipeline.Inv p₀
      { s with
        sb := stepBlockIdleTest param s.sb
        phase := .idle
        history := s.history ++ loadEvents s.sb (stepBlockIdleTest param s.sb) } := by
  have hnonneg : (InputPhase.idle : InputPhase R).Nonneg := fun _ hblock => by
    simp [InputPhase.waiting] at hblock
  obtain ⟨-, ⟨hclear, hsame⟩ | ⟨hmem, line, rest, hload⟩ | ⟨hmem, hlen, -⟩⟩ :=
    idleTest_cases param h.phase_inv.sound
  · -- with the flag clear the timer runs
    have hon : s.sb.timer.enabled = true := by
      by_contra hoff
      exact hclear (h.armed (Bool.eq_false_iff.mpr hoff))
    rw [hsame] at hphase ⊢
    rw [loadEvents_same rfl, List.append_nil]
    exact ⟨hphase, h.armed, fun _ hoff => by simp [hon] at hoff, h.fifo, h.tallied, hnonneg,
      h.quiet⟩
  · have hon := hload.timer_on
    rw [hload.events]
    refine ⟨hphase, fun hoff => by simp [hon] at hoff, fun _ hoff => by simp [hon] at hoff, ?_,
      htallied, hnonneg, ?_⟩
    · apply History.dequeue
      rw [← hload.pending_before]
      exact h.fifo
    · intro htrig hflush
      obtain ⟨hquiet, hproj⟩ := h.quiet htrig fun hmem => hflush (List.mem_append_left _ hmem)
      obtain ⟨hquiet', hproj'⟩ := hmoves hquiet
      refine ⟨hquiet', ?_⟩
      intro i
      rw [enqueued_append_dequeue, ← hproj i]
      exact hproj' i
  · exact absurd ⟨hmem, hlen⟩ hfound

theorem Pipeline.Inv.move {p₀ : Axis → ℤ} {s t : Pipeline R} {m : InputMove R} (h : s.Inv p₀)
    (hstep : s.step (.move m) = some t) (hkeeps : s.KeepsFlag (.move m)) : t.Inv p₀ := by
  simp only [Pipeline.step, Option.map_eq_some_iff] at hstep
  obtain ⟨⟨phase', sb'⟩, hmove, rfl⟩ := hstep
  obtain ⟨htallied, hnonneg⟩ := move_tallied h.phase_inv h.tallied h.nonneg hmove
  have hmoves := fun hquiet => move_undisturbed h.phase_inv h.tallied hquiet hmove
  obtain ⟨hphase, hwaits | ⟨block, hready, rfl, hroom, rfl⟩ | ⟨block, hinserted, rfl, rfl⟩ |
    ⟨param, hplanned, rfl, rfl⟩⟩ := inputMove_cases h.phase_inv hmove
  · obtain ⟨hwaiting, hne, ⟨e, rfl⟩, hidle, -⟩ := hwaits
    have hnone : phase'.waiting ≠ none := by rwa [hwaiting]
    refine h.withEvent hphase hidle (fun _ => InputPhase.not_holding_of_waiting hne) hnonneg ?_
    cases phase' with
    | inserted block => simp [InputPhase.waiting] at hnone
    | _ => simp [loadEvents]
  · exact h.insert hphase hroom htallied hmoves
  · refine h.replan hphase htallied ?_
    simpa [InputPhase.landing] using hmoves
  · refine h.idleTest hphase ?_ htallied ?_
    · cases m with
      | idleTest param => exact hkeeps param rfl
      | _ => simp [hplanned, inputMove] at hmove
    · simpa [InputPhase.landing] using hmoves

/-- Every step that does not lose the flag keeps the invariant. -/
theorem Pipeline.Inv.step {p₀ : Axis → ℤ} {s t : Pipeline R} {a : PipelineAction R}
    (h : s.Inv p₀) (hstep : s.step a = some t) (hkeeps : s.KeepsFlag a) : t.Inv p₀ := by
  cases a with
  | call motion =>
      simp only [Pipeline.step] at hstep
      split at hstep
      · rename_i hidle
        obtain rfl := Option.some.inj hstep
        obtain ⟨hphase, hwaiting, e, he, hevent, -⟩ :=
          inputMotion_waits h.phase_inv.sound motion.line
        rw [he] at hphase ⊢
        refine h.withEvent hphase hevent (fun _ => by rw [hidle]; rfl) (fun block hblock => ?_) rfl
        obtain rfl := Option.some.inj (hwaiting.symm.trans hblock)
        exact motion.nonneg
      · simp at hstep
  | move m => exact h.move hstep hkeeps
  | tick param pins =>
      obtain ⟨htimer, rfl⟩ := Option.ite_some_none_eq_some.mp hstep
      exact h.tick htimer param pins
  | forceStop =>
      simp only [Pipeline.step] at hstep
      split at hstep
      · rename_i hidle
        obtain rfl := Option.some.inj hstep
        have hhalted := forceStopBegin_halted h.phase_inv.sound.unclaimed
        have hsound := forceStopEnd_sound hhalted.timer_off hhalted.unclaimed
        refine ⟨⟨hsound, fun block hready => ?_⟩, hhalted.forceStopEnd_armed, fun _ _ => rfl,
          h.fifo.flush, ⟨h.tallied.counted, fun c hc => ?_⟩, fun block hwaiting => ?_,
          fun _ hflush => ?_⟩
        · simp [hidle] at hready
        · simp [StepBlock.pending, StepBlock.queue, stepBlockForceStopEnd] at hc
        · simp [hidle, InputPhase.waiting] at hwaiting
        · simp at hflush
      · simp at hstep
  | setTrigger on =>
      obtain rfl := Option.some.inj hstep
      refine ⟨⟨h.phase_inv.sound.withStepAxis _, h.phase_inv.room⟩, h.armed, h.drained, h.fifo,
        ⟨⟨h.tallied.counted.busy_need, h.tallied.counted.step_le⟩, h.tallied.queued_nonneg⟩,
        h.nonneg, fun htrig hflush => ?_⟩
      simp only [Bool.or_eq_false_iff] at htrig
      obtain ⟨⟨hcomplete, -, hsettled⟩, hproj⟩ := h.quiet htrig.1 hflush
      exact ⟨⟨hcomplete, htrig.2, hsettled⟩, hproj⟩

/-- A step that loses the flag ends the call with the timer stopped and the flag
clear. -/
theorem Pipeline.Inv.broken {p₀ : Axis → ℤ} {s t : Pipeline R} {a : PipelineAction R}
    (h : s.Inv p₀) (hstep : s.step a = some t) (hloses : ¬ s.KeepsFlag a) : ¬ t.Conserves p₀ := by
  simp only [Pipeline.KeepsFlag, not_forall, not_not] at hloses
  obtain ⟨param, rfl, hmem, hlen⟩ := hloses
  simp only [Pipeline.step, Option.map_eq_some_iff] at hstep
  obtain ⟨⟨phase', sb'⟩, hmove, rfl⟩ := hstep
  have hend : phase' = .idle ∧ sb' = stepBlockIdleTest param s.sb := by
    cases hphase : s.phase with
    | planned =>
        rw [hphase] at hmove
        obtain ⟨rfl, rfl⟩ := Prod.mk.inj (Option.some.inj hmove)
        exact ⟨rfl, rfl⟩
    | _ => simp [hphase, inputMove] at hmove
  obtain ⟨rfl, rfl⟩ := hend
  have hoff := h.phase_inv.sound.idle_off hmem
  obtain ⟨-, ⟨hclear, -⟩ | ⟨-, line, rest, hload⟩ | ⟨-, -, hlost⟩⟩ :=
    idleTest_cases param h.phase_inv.sound
  · exact absurd hmem hclear
  · exact absurd hlen hload.len_ne
  · intro hconserves
    have hiff := hconserves.idle_iff rfl
    simp only [hlost, hoff, iff_true] at hiff
    simp at hiff

/-- The conservation laws hold throughout a run exactly if no call of
`stepBlock_inputMotion` in it finds `STEP_EVENT_BLOCK_IDLE` set over an empty queue
at its end. -/
theorem conserves_iff (p₀ : Axis → ℤ) (as : List (PipelineAction R)) :
    (pipeline R).Always (Pipeline.Conserves p₀) (Pipeline.boot p₀) as ↔
      (pipeline R).AllSteps Pipeline.KeepsFlag (Pipeline.boot p₀) as :=
  Machine.always_iff_allSteps (J := Pipeline.Inv p₀) (fun _ h => h.conserves)
    (fun _ _ _ h hstep hkeeps => h.step hstep hkeeps)
    (fun _ _ _ h hstep hloses => h.broken hstep hloses) (Pipeline.boot_inv p₀) as

end

/-! ## The lost start -/

def releasedPins : TriggerPins := ⟨fun _ => false, fun _ => false⟩

/-- Parameters for runs on fixed inputs. -/
def sampleParam : Param ℚ where
  positionOffset := fun _ => 0
  mm2step := fun _ => 100
  microStep := fun _ => 1
  maxSpeed := fun _ => 100
  maxSpeedDelta := fun _ => 10
  defaultEntrySpeed := fun _ => 1
  defaultAccelSpeed := fun _ => 40
  maxAccelSpeed := fun _ => 1000
  advanceK := 0
  advanceDeprime := 0

def oneStep : GoodMotion ℚ where
  line :=
    { MotionLine.zero with
      masterStep := 1
      steps := fun i => if i = 0 then 1 else 0
      dir := fun _ => true
      nominalRate := 1000 }
  nonneg := by decide
  le_masterStep := by decide
  moves := ⟨0, by decide⟩

/-- A whole call of `stepBlock_inputMotion` without an interruption. -/
def wholeCall : List (PipelineAction ℚ) :=
  [.call oneStep, .move .insert, .move .replan, .move (.idleTest sampleParam)]

/-- Four interrupts in the second call finish both motions before the test of
`STEP_EVENT_BLOCK_IDLE`; the third motion is then never started. -/
def lostStart : List (PipelineAction ℚ) :=
  wholeCall ++ [.call oneStep, .move .insert, .move .replan] ++
    List.replicate 4 (.tick sampleParam releasedPins) ++ [.move (.idleTest sampleParam)] ++
    wholeCall

/-- The third motion stays queued while the timer stands still. -/
theorem lostStart_not_conserved :
    ¬ (pipeline ℚ).Always (Pipeline.Conserves 0) (Pipeline.boot 0) lostStart := by
  intro halways
  have hexec : ((pipeline ℚ).exec (Pipeline.boot 0) lostStart).map
      (fun t => (t.phase.isIdle, t.sb.timer.enabled, t.sb.len)) = some (true, false, 1) := by
    decide +kernel
  obtain ⟨t, ht, hobserved⟩ := Option.map_eq_some_iff.mp hexec
  simp only [Prod.mk.injEq] at hobserved
  obtain ⟨hidle, htimer, hlen⟩ := hobserved
  have hdrained := (halways.exec ht).drained (InputPhase.eq_idle_of_isIdle hidle) htimer
  omega

end TdPrinter
