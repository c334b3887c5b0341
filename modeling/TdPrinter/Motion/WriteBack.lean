import TdPrinter.Foundation.Machine
import TdPrinter.Motion.Pipeline

/-!
# Where the record of a finished motion goes

When no axis is busy, `stepBlock_ISR` stores the rates and the time of the motion that has
just finished through `currentBuffer`.  `stepBlock_init` clears this pointer and then
enables the timer, although there is no motion yet: an interrupt that comes before the
first motion is loaded finds no axis busy and writes through the null pointer.

`BlockRun` is the step block with all that can happen to it, in any order, and with the
slot from which the last motion was loaded since `stepBlock_init`.  `stepBlock_forceStop`
can come at any point of `stepBlock_inputMotion`, which may go on while it waits, or be
given up with its thread.  `writesBack_iff` says that the interrupts in front of the first
load are the only ones that go wrong.
-/

namespace TdPrinter

/-! ## stepBlock_init -/

/-- `stepBlock_init`.  Deleting the old event resumes the threads suspended on it. -/
def stepBlockStart {R : Type*} [Zero R] (sb : StepBlock R) : StepBlock R :=
  let event := { rtEventCreate with resumed := (rtEventReset sb.event).resumed }
  { stepBlockReset { sb with stepAxis := stepAxisSetHardPos sb.stepAxis fun _ => 0 } with
    event := rtEventSend (rtEventSend event {.blockIdle}) {.blockComplete}
    currentBuffer := none
    -- `tim1` as `bsp.c` configures it
    timer := ⟨true, 7 - 1, 24000 - 1, sb.timer.dt⟩ }

section

variable {R : Type*} [Field R] [LinearOrder R] [FloorRing R]

/-- After the first start the timer runs, and the first interrupt stops it. -/
theorem firstInterrupt_eq (param : Param R) (pins : TriggerPins) :
    stepBlockISR param pins (stepBlockStart stepBlockInit) =
      { (stepBlockInit : StepBlock R) with timer := ⟨false, 7 - 1, 24000 - 1, 0⟩ } := by
  have hset : ((((∅ : Finset StepEvent) ∪ {.blockIdle}) ∪ {.blockComplete}) ∪ {.blockComplete}) ∪
      {.blockIdle} = (∅ ∪ {.blockIdle}) ∪ {.blockComplete} := by
    decide
  have hsent : rtEventSend (rtEventSend (stepBlockInit : StepBlock R).event {.blockComplete})
      {.blockIdle} = (stepBlockInit : StepBlock R).event :=
    congrArg (fun set => (⟨set, [], []⟩ : Event Thread StepEvent)) hset
  calc stepBlockISR param pins (stepBlockStart stepBlockInit)
      = stepBlockComplete param (stepBlockStart stepBlockInit) := rfl
    _ = { (stepBlockInit : StepBlock R) with
          timer := ⟨false, 7 - 1, 24000 - 1, 0⟩
          event := rtEventSend (rtEventSend (stepBlockInit : StepBlock R).event
            {.blockComplete}) {.blockIdle} } := rfl
    _ = _ := by rw [hsent]

end

/-! ## All orders of calls and interrupts -/

/-- The step block, the caller of `stepBlock_inputMotion`, the slot of the motion that was
loaded last, if any has been since `stepBlock_init`, and whether a caller of
`stepBlock_forceStop` is in its `rt_thread_delay(1)`. -/
structure BlockRun (R : Type*) where
  sb : StepBlock R
  phase : InputPhase R
  loaded : Option (Fin motionBufferSize)
  stopping : Bool

inductive BlockAction (R : Type*)
  | init
  | call (block : MotionLine R)
  | move (m : InputMove R)
  | tick (param : Param R) (pins : TriggerPins)
  | forceStop
  /-- `rt_thread_delay(1)` is over -/
  | stopReturn
  /-- `rt_thread_delete(g->thread)` -/
  | threadDelete

section

variable {R : Type*}

/-- The slot of the last load, which is seen in `tail`. -/
def loadedSlot (before after : StepBlock R) (loaded : Option (Fin motionBufferSize)) :
    Option (Fin motionBufferSize) :=
  if after.tail = before.tail then loaded else some before.tail

/-- The first `stepBlock_init` has returned. -/
def BlockRun.boot [Zero R] : BlockRun R := ⟨stepBlockStart stepBlockInit, .idle, none, false⟩

end

section

variable {R : Type*} [Field R] [LinearOrder R] [FloorRing R] [Sqrtf R]

/-- One step.  `stepBlock_init` and `stepBlock_forceStop` are not called while the latter is in
its delay. -/
def BlockRun.step (s : BlockRun R) : BlockAction R → Option (BlockRun R)
  | .init =>
      if s.stopping then none else some { s with sb := stepBlockStart s.sb, loaded := none }
  | .call block =>
      match s.phase with
      | .idle =>
          let r := stepBlockInputMotion s.sb block
          some { s with sb := r.2, phase := r.1 }
      | _ => none
  | .move m =>
      (inputMove s.phase s.sb m).map fun r =>
        { s with sb := r.2, phase := r.1, loaded := loadedSlot s.sb r.2 s.loaded }
  | .tick param pins =>
      if s.sb.timer.enabled then
        let sb := stepBlockISR param pins s.sb
        some { s with sb := sb, loaded := loadedSlot s.sb sb s.loaded }
      else none
  | .forceStop =>
      if s.stopping then none
      else some { s with sb := stepBlockForceStopBegin s.sb, stopping := true }
  | .stopReturn =>
      if s.stopping then some { s with sb := stepBlockForceStopEnd s.sb, stopping := false }
      else none
  | .threadDelete =>
      -- the thread is also taken off the list of the event
      let suspended := s.sb.event.suspended.filter fun r => r.thread ≠ .gcodeThread
      some { s with
        sb := { s.sb with event := { s.sb.event with suspended := suspended } }
        phase := .idle }

variable (R) in
def blockRun : Machine (BlockRun R) (BlockAction R) := ⟨BlockRun.step⟩

/-- An interrupt that finds the motion finished writes to the slot of this motion. -/
def BlockRun.WritesBack (s : BlockRun R) (a : BlockAction R) (_ : BlockRun R) : Prop :=
  match a with
  | .tick param pins =>
      stepBlockIsBusy (stepBlockExecute param pins s.sb) = false →
        ∃ k, s.sb.currentBuffer = some k ∧ s.loaded = some k ∧
          (s.sb.buffer k).toCommand = s.sb.currentLine.toCommand
  | _ => True

omit [Field R] [LinearOrder R] [FloorRing R] [Sqrtf R] in
/-- The condition on a step: an interrupt comes only after a motion has been loaded since
`stepBlock_init`. -/
def BlockRun.HasMotion (s : BlockRun R) (a : BlockAction R) : Prop :=
  match a with
  | .tick _ _ => s.loaded ≠ none
  | _ => True

/-! ## Commands in the buffer -/

omit [Field R] [LinearOrder R] [FloorRing R] [Sqrtf R] in
/-- The slots hold the same motions, up to their plans. -/
def SameCommands (buf buf' : MotionBuffer R) : Prop :=
  ∀ k, (buf' k).toCommand = (buf k).toCommand

omit [Field R] [LinearOrder R] [FloorRing R] [Sqrtf R] in
theorem SameCommands.trans {buf buf' buf'' : MotionBuffer R} (h : SameCommands buf buf')
    (h' : SameCommands buf' buf'') : SameCommands buf buf'' :=
  fun k => (h' k).trans (h k)

omit [Field R] [LinearOrder R] [FloorRing R] [Sqrtf R] in
theorem sameCommands_update {buf : MotionBuffer R} {i : Fin motionBufferSize} {b : MotionLine R}
    (hb : b.toCommand = (buf i).toCommand) : SameCommands buf (Function.update buf i b) := by
  intro k
  by_cases hk : k = i
  · rw [hk, Function.update_self, hb]
  · rw [Function.update_of_ne hk]

omit [FloorRing R] in
theorem sameCommands_reverseLoop (tail : Fin motionBufferSize) (fuel : ℕ) (buf : MotionBuffer R)
    (i : Fin motionBufferSize) (block0 block1 : Option (Fin motionBufferSize)) :
    SameCommands buf (plannerReverseLoop tail fuel buf i block0 block1) := by
  induction fuel generalizing buf i block0 block1 with
  | zero => exact fun _ => rfl
  | succ fuel ih =>
      rw [plannerReverseLoop]
      split
      · exact fun _ => rfl
      · refine SameCommands.trans ?_ (ih _ _ _ _)
        cases block0 with
        | none => exact fun _ => rfl
        | some current =>
            cases block1 with
            | none => exact fun _ => rfl
            | some next =>
                obtain ⟨_, _, _, hkernel, -⟩ := reverseKernel_replanned (buf current) (buf next)
                exact sameCommands_update (by rw [hkernel])

omit [FloorRing R] in
theorem sameCommands_forwardPassKernel (buf : MotionBuffer R)
    (previous current : Option (Fin motionBufferSize)) :
    SameCommands buf (plannerForwardPassKernel buf previous current) := by
  cases previous with
  | none => exact fun _ => rfl
  | some previous =>
      cases current with
      | none => exact fun _ => rfl
      | some current =>
          obtain ⟨_, _, _, hkernel, -⟩ := forwardKernel_replanned (buf previous) (buf current)
          exact sameCommands_update (by rw [hkernel])

omit [FloorRing R] in
theorem sameCommands_forwardLoop (head : Fin motionBufferSize) (fuel : ℕ) (buf : MotionBuffer R)
    (i : Fin motionBufferSize) (block1 block2 : Option (Fin motionBufferSize)) :
    SameCommands buf (plannerForwardLoop head fuel buf i block1 block2) := by
  induction fuel generalizing buf i block1 block2 with
  | zero => exact fun _ => rfl
  | succ fuel ih =>
      rw [plannerForwardLoop]
      split
      · exact sameCommands_forwardPassKernel buf block1 block2
      · exact (sameCommands_forwardPassKernel buf block1 block2).trans (ih _ _ _ _)

omit [Sqrtf R] in
theorem sameCommands_trapezoidsLoop (head : Fin motionBufferSize) (fuel : ℕ)
    (buf : MotionBuffer R) (i : Fin motionBufferSize) (next : Option (Fin motionBufferSize)) :
    SameCommands buf (plannerTrapezoidsLoop head fuel buf i next) := by
  induction fuel generalizing buf i next with
  | zero => exact fun _ => rfl
  | succ fuel ih =>
      unfold plannerTrapezoidsLoop
      split
      · cases next with
        | none => exact fun _ => rfl
        | some last =>
            obtain ⟨_, _, _, _, _, hkernel⟩ := trapezoidLast_retimed (buf last)
            exact sameCommands_update (by rw [hkernel])
      · cases next with
        | none => exact ih _ _ _
        | some current =>
            obtain ⟨_, _, _, _, _, hkernel⟩ := trapezoidKernel_retimed (buf current) (buf i)
            exact (sameCommands_update (by rw [hkernel])).trans (ih _ _ _)

/-- Planning leaves all commands alone, also those that are not in the queue. -/
theorem sameCommands_replan (sb : StepBlock R) (block : MotionLine R) :
    SameCommands sb.buffer (stepBlockReplan sb block).buffer := by
  unfold stepBlockReplan
  split
  · refine ((?_ : SameCommands _ _).trans (sameCommands_forwardLoop _ _ _ _ _ _)).trans
      (sameCommands_trapezoidsLoop _ _ _ _ _)
    unfold plannerReversePass
    split
    · exact sameCommands_reverseLoop _ _ _ _ _ _
    · exact fun _ => rfl
  · exact fun _ => rfl

omit [Field R] [LinearOrder R] [FloorRing R] [Sqrtf R] in
/-- The record of a finished motion is not part of its command. -/
theorem sameCommands_writeBack (sb : StepBlock R) :
    SameCommands sb.buffer (stepBlockWriteBack sb).buffer := by
  unfold stepBlockWriteBack
  split
  · exact fun _ => rfl
  · exact sameCommands_update rfl

/-! ## The invariant -/

omit [Field R] [LinearOrder R] [FloorRing R] [Sqrtf R] in
/-- Before the first load there is neither a slot nor a busy axis; afterwards, while the timer
runs, the slot is the free one in front of `tail` and holds the motion being executed. -/
structure Tracks (sb : StepBlock R) (loaded : Option (Fin motionBufferSize)) : Prop where
  len_le : sb.len ≤ motionBufferSize - 1
  head_eq : sb.head = slot sb.tail sb.len
  fresh : loaded = none → sb.currentBuffer = none ∧ stepBlockIsBusy sb = false
  current : sb.timer.enabled = true → ∀ k, loaded = some k →
    sb.currentBuffer = some k ∧ k = slot sb.tail (motionBufferSize - 1) ∧
      (sb.buffer k).toCommand = sb.currentLine.toCommand

section

omit [Field R] [LinearOrder R] [FloorRing R] [Sqrtf R]

variable {sb : StepBlock R} {loaded : Option (Fin motionBufferSize)}

theorem Tracks.withEvent (h : Tracks sb loaded) (e : Event Thread StepEvent) :
    Tracks { sb with event := e } loaded :=
  ⟨h.len_le, h.head_eq, h.fresh, h.current⟩

theorem Tracks.withBuffer (h : Tracks sb loaded) {buf : MotionBuffer R}
    (hbuf : SameCommands sb.buffer buf) : Tracks { sb with buffer := buf } loaded := by
  refine ⟨h.len_le, h.head_eq, h.fresh, fun htimer k hk => ?_⟩
  obtain ⟨hcurrent, hslot, hcommand⟩ := h.current htimer k hk
  exact ⟨hcurrent, hslot, (hbuf k).trans hcommand⟩

/-- With the timer stopped there is nothing to be said about the slot. -/
theorem Tracks.stop (h : Tracks sb loaded) :
    Tracks { sb with timer := stepTimerSetEnable sb.timer false } loaded :=
  ⟨h.len_le, h.head_eq, h.fresh, fun htimer => by simp [stepTimerSetEnable] at htimer⟩

theorem Tracks.insert (h : Tracks sb loaded) (hroom : sb.HasRoom) (block : MotionLine R) :
    Tracks (stepBlockInsert sb block) loaded where
  len_le := hroom
  head_eq := by
    show inc sb.head = slot sb.tail (sb.len + 1)
    rw [h.head_eq, inc_eq_slot, slot_slot]
  fresh := h.fresh
  current htimer k hk := by
    obtain ⟨hcurrent, hslot, hcommand⟩ := h.current htimer k hk
    -- the insertion goes to a slot before the free one
    have hne : k ≠ sb.head := by
      rw [hslot, h.head_eq]
      intro heq
      have hlen : sb.len < motionBufferSize := hroom.trans (by decide)
      exact hroom.ne (slot_injective (by decide) hlen heq).symm
    refine ⟨hcurrent, hslot, ?_⟩
    show (Function.update sb.buffer sb.head block k).toCommand = _
    rw [Function.update_of_ne hne]
    exact hcommand

theorem start_tracks [Zero R] (sb : StepBlock R) : Tracks (stepBlockStart sb) none where
  len_le := Nat.zero_le _
  head_eq := rfl
  fresh _ := ⟨rfl, by simp [stepBlockIsBusy, stepAxisIsBusy, stepBlockStart, stepBlockReset,
    stepAxisReset]⟩
  current _ _ hk := by simp at hk

/-- In the delay of `stepBlock_forceStop` the timer stands still and nothing can start it.  The
queue need not be in order. -/
structure Halts (sb : StepBlock R) (loaded : Option (Fin motionBufferSize)) : Prop where
  timer_off : sb.timer.enabled = false
  idle_clear : .blockIdle ∉ sb.event.set
  fresh : loaded = none → sb.currentBuffer = none ∧ stepBlockIsBusy sb = false

theorem Tracks.forceStopBegin (h : Tracks sb loaded) :
    Halts (stepBlockForceStopBegin sb) loaded where
  timer_off := rfl
  idle_clear := by
    refine notMem_send ?_ (by decide)
    by_cases hmem : .blockIdle ∈ sb.event.set
    · simp [recvIdleClear_of_mem hmem]
    · simp [recvIdleClear_of_notMem hmem, hmem]
  fresh := h.fresh

theorem Halts.forceStopEnd (h : Halts sb loaded) : Tracks (stepBlockForceStopEnd sb) loaded where
  len_le := Nat.zero_le _
  head_eq := rfl
  fresh := h.fresh
  current htimer := by
    rw [stepBlockForceStopEnd] at htimer
    exact absurd htimer (by simp [h.timer_off])

theorem Halts.withEvent (h : Halts sb loaded) {e : Event Thread StepEvent}
    (hset : .blockIdle ∈ e.set → .blockIdle ∈ sb.event.set) :
    Halts { sb with event := e } loaded :=
  ⟨h.timer_off, mt hset h.idle_clear, h.fresh⟩

end

section

omit [Sqrtf R]

variable {sb : StepBlock R} {loaded : Option (Fin motionBufferSize)}

/-- A load makes its slot the free one in front of `tail`. -/
theorem load_tracks (param : Param R) (hlen : 0 < sb.len) (hle : sb.len ≤ motionBufferSize - 1)
    (hhead : sb.head = slot sb.tail sb.len) : Tracks (stepBlockLoad param sb) (some sb.tail) := by
  have hsound := load_sound param hlen hle hhead
  refine ⟨hsound.len_le, hsound.head_eq, by simp, fun htimer k hk => ?_⟩
  obtain rfl := Option.some.inj hk
  exact ⟨rfl, Option.some.inj (hsound.current_eq htimer), rfl⟩

/-- `stepBlock_loadNextMotion`, with a motion in the queue or without. -/
theorem Tracks.loadNext (h : Tracks sb loaded) (param : Param R) :
    Tracks (stepBlockLoadNextMotion param sb).2
      (loadedSlot sb (stepBlockLoadNextMotion param sb).2 loaded) := by
  unfold stepBlockLoadNextMotion
  split
  · rename_i hlen
    have hslot : loadedSlot sb (stepBlockLoad param sb) loaded = some sb.tail :=
      if_neg (inc_ne sb.tail)
    rw [hslot]
    exact load_tracks param hlen h.len_le h.head_eq
  · rw [loadedSlot, if_pos rfl]
    exact h.stop

theorem Tracks.idleTest (h : Tracks sb loaded) (param : Param R) :
    Tracks (stepBlockIdleTest param sb) (loadedSlot sb (stepBlockIdleTest param sb) loaded) := by
  unfold stepBlockIdleTest
  dsimp only
  split
  · exact (h.withEvent _).loadNext param
  · rw [loadedSlot, if_pos rfl]
    exact h.withEvent _

theorem Tracks.complete (h : Tracks sb loaded) (param : Param R) :
    Tracks (stepBlockComplete param sb) (loadedSlot sb (stepBlockComplete param sb) loaded) := by
  obtain ⟨buf, hback⟩ := writeBack_frame sb
  have hsame := sameCommands_writeBack sb
  have hwritten : Tracks { sb with buffer := buf } loaded := by
    rw [hback] at hsame
    exact h.withBuffer hsame
  have hnext := hwritten.loadNext param
  unfold stepBlockComplete
  rw [hback]
  dsimp only
  split
  · exact hnext.withEvent _
  · exact hnext.withEvent _

theorem Tracks.execute (h : Tracks sb loaded) (param : Param R) (pins : TriggerPins) :
    Tracks (stepBlockExecute param pins sb) loaded := by
  obtain ⟨axis, _, _, _, _, _, timer, hexec, htimer, haxis⟩ := execute_frame param pins sb
  rw [hexec]
  refine ⟨h.len_le, h.head_eq, fun hnone => ?_, fun hon => h.current (htimer ▸ hon)⟩
  obtain ⟨hcurrent, hidle⟩ := h.fresh hnone
  -- an interrupt makes no axis busy
  rcases haxis with ⟨hbusy, -⟩ | ⟨-, rfl | ⟨a, rfl⟩⟩
  · rw [hidle] at hbusy
    exact Bool.noConfusion hbusy
  · exact ⟨hcurrent, hidle⟩
  · exact ⟨hcurrent, hidle⟩

theorem Tracks.isr (h : Tracks sb loaded) (param : Param R) (pins : TriggerPins) :
    Tracks (stepBlockISR param pins sb) (loadedSlot sb (stepBlockISR param pins sb) loaded) := by
  have hexec := h.execute param pins
  have htail := execute_tail param pins sb
  unfold stepBlockISR
  dsimp only
  split
  · rw [loadedSlot, if_pos htail]
    exact hexec
  · have hcomplete := hexec.complete param
    rw [loadedSlot, htail] at hcomplete
    exact hcomplete

end

/-- The wait loop changes the event only, and leaves `STEP_EVENT_BLOCK_IDLE` as it is. -/
theorem poll_event {phase' : InputPhase R} {sb sb' : StepBlock R} {block : MotionLine R}
    (hmove : inputMove (.full block) sb .poll = some (phase', sb')) :
    ∃ e : Event Thread StepEvent,
      (.blockIdle ∈ e.set ↔ .blockIdle ∈ sb.event.set) ∧ sb' = { sb with event := e } := by
  simp only [inputMove] at hmove
  split at hmove
  · obtain ⟨-, rfl⟩ := Prod.mk.inj (Option.some.inj hmove)
    exact ⟨_, Iff.rfl, rfl⟩
  · have hrecv : sb' = (stepBlockRecvComplete sb true).1 := by
      cases hr : stepBlockRecvComplete sb true with
      | mk sb₁ err =>
          rw [hr] at hmove
          cases err with
          | none => exact (Prod.mk.inj (Option.some.inj hmove)).2.symm
          | some err => exact (Prod.mk.inj (Option.some.inj hmove)).2.symm
    exact ⟨_, mem_recvComplete, hrecv⟩

/-- What a piece of `stepBlock_inputMotion` does, in any state. -/
theorem inputMove_pieces {phase phase' : InputPhase R} {sb sb' : StepBlock R} {m : InputMove R}
    (hmove : inputMove phase sb m = some (phase', sb')) :
    (∃ e : Event Thread StepEvent,
        (.blockIdle ∈ e.set ↔ .blockIdle ∈ sb.event.set) ∧ sb' = { sb with event := e }) ∨
      (∃ block, sb.HasRoom ∧ sb' = stepBlockInsert sb block) ∨
      (∃ block, sb' = stepBlockReplan sb block) ∨ ∃ param, sb' = stepBlockIdleTest param sb := by
  cases phase with
  | idle => simp [inputMove] at hmove
  | full block =>
      cases m with
      | poll => exact .inl (poll_event hmove)
      | _ => simp [inputMove] at hmove
  | asleep block =>
      cases m with
      | expire =>
          simp only [inputMove] at hmove
          split at hmove
          · obtain ⟨-, rfl⟩ := Prod.mk.inj (Option.some.inj hmove)
            exact .inl ⟨rtEventExpire sb.event .gcodeThread, Iff.rfl, rfl⟩
          · simp at hmove
      | resume =>
          simp only [inputMove, Option.map_eq_some_iff] at hmove
          obtain ⟨⟨err, e⟩, hresume, heq⟩ := hmove
          obtain ⟨-, rfl⟩ := Prod.mk.inj heq
          obtain ⟨-, rfl⟩ := resume_spec hresume
          exact .inl ⟨{ sb.event with resumed := sb.event.resumed.erase _ }, Iff.rfl, rfl⟩
      | _ => simp [inputMove] at hmove
  | ready block =>
      cases m with
      | insert =>
          simp only [inputMove] at hmove
          split at hmove
          · rename_i hroom
            obtain ⟨-, rfl⟩ := Prod.mk.inj (Option.some.inj hmove)
            exact .inr (.inl ⟨block, hroom, rfl⟩)
          · obtain ⟨-, rfl⟩ := Prod.mk.inj (Option.some.inj hmove)
            exact .inl ⟨_, Iff.rfl, rfl⟩
      | _ => simp [inputMove] at hmove
  | inserted block =>
      cases m with
      | replan =>
          obtain ⟨-, rfl⟩ := Prod.mk.inj (Option.some.inj hmove)
          exact .inr (.inr (.inl ⟨block, rfl⟩))
      | _ => simp [inputMove] at hmove
  | planned =>
      cases m with
      | idleTest param =>
          obtain ⟨-, rfl⟩ := Prod.mk.inj (Option.some.inj hmove)
          exact .inr (.inr (.inr ⟨param, rfl⟩))
      | _ => simp [inputMove] at hmove

theorem Tracks.move {phase phase' : InputPhase R} {sb sb' : StepBlock R} {m : InputMove R}
    {loaded : Option (Fin motionBufferSize)} (h : Tracks sb loaded)
    (hmove : inputMove phase sb m = some (phase', sb')) :
    Tracks sb' (loadedSlot sb sb' loaded) := by
  obtain ⟨e, -, rfl⟩ | ⟨block, hroom, rfl⟩ | ⟨block, rfl⟩ | ⟨param, rfl⟩ := inputMove_pieces hmove
  · rw [loadedSlot, if_pos rfl]
    exact h.withEvent e
  · have hslot : loadedSlot sb (stepBlockInsert sb block) loaded = loaded := if_pos rfl
    rw [hslot]
    exact h.insert hroom block
  · obtain ⟨buf, hbuf⟩ := replan_frame sb block
    have hsame := sameCommands_replan sb block
    rw [hbuf] at hsame ⊢
    rw [loadedSlot, if_pos rfl]
    exact h.withBuffer hsame
  · exact h.idleTest param

theorem Halts.move {phase phase' : InputPhase R} {sb sb' : StepBlock R} {m : InputMove R}
    {loaded : Option (Fin motionBufferSize)} (h : Halts sb loaded)
    (hmove : inputMove phase sb m = some (phase', sb')) :
    Halts sb' (loadedSlot sb sb' loaded) := by
  obtain ⟨e, hset, rfl⟩ | ⟨block, -, rfl⟩ | ⟨block, rfl⟩ | ⟨param, rfl⟩ := inputMove_pieces hmove
  · rw [loadedSlot, if_pos rfl]
    exact h.withEvent hset.mp
  · have hslot : loadedSlot sb (stepBlockInsert sb block) loaded = loaded := if_pos rfl
    rw [hslot]
    exact ⟨h.timer_off, h.idle_clear, h.fresh⟩
  · obtain ⟨buf, hbuf⟩ := replan_frame sb block
    rw [hbuf, loadedSlot, if_pos rfl]
    exact ⟨h.timer_off, h.idle_clear, h.fresh⟩
  · -- the flag is clear, so nothing is loaded
    have htest : stepBlockIdleTest param sb = sb := by
      simp [stepBlockIdleTest, recvIdleClear_of_notMem h.idle_clear]
    rw [htest, loadedSlot, if_pos rfl]
    exact h

omit [Field R] [LinearOrder R] [FloorRing R] [Sqrtf R] in
structure BlockRun.Inv (s : BlockRun R) : Prop where
  runs : s.stopping = false → Tracks s.sb s.loaded
  stops : s.stopping = true → Halts s.sb s.loaded

omit [Field R] [LinearOrder R] [FloorRing R] [Sqrtf R] in
theorem BlockRun.Inv.keep {s t : BlockRun R} (h : s.Inv) (hstopping : t.stopping = s.stopping)
    (htracks : Tracks s.sb s.loaded → Tracks t.sb t.loaded)
    (hhalts : Halts s.sb s.loaded → Halts t.sb t.loaded) : t.Inv where
  runs ht := htracks (h.runs (hstopping ▸ ht))
  stops ht := hhalts (h.stops (hstopping ▸ ht))

omit [Field R] [LinearOrder R] [FloorRing R] [Sqrtf R] in
/-- The timer runs outside of `stepBlock_forceStop` only. -/
theorem BlockRun.Inv.tracks {s : BlockRun R} (h : s.Inv) (htimer : s.sb.timer.enabled = true) :
    Tracks s.sb s.loaded := by
  refine h.runs ?_
  by_contra hstopping
  have hoff := (h.stops (by simpa using hstopping)).timer_off
  rw [htimer] at hoff
  exact Bool.noConfusion hoff

theorem BlockRun.Inv.step {s t : BlockRun R} {a : BlockAction R} (h : s.Inv)
    (hstep : (blockRun R).step s a = some t) : t.Inv := by
  cases a with
  | init =>
      obtain ⟨hstopping, hnext⟩ := Option.ite_none_left_eq_some.mp hstep
      obtain rfl := Option.some.inj hnext
      exact ⟨fun _ => start_tracks s.sb, fun hstops => absurd hstops hstopping⟩
  | call block =>
      cases hphase : s.phase with
      | idle =>
          simp only [blockRun, BlockRun.step, hphase] at hstep
          obtain rfl := Option.some.inj hstep
          unfold stepBlockInputMotion
          split
          · exact h.keep rfl (fun htracks => htracks.withEvent _)
              fun hhalts => hhalts.withEvent mem_recvComplete.mp
          · exact h.keep rfl id id
      | _ => simp [blockRun, BlockRun.step, hphase] at hstep
  | move m =>
      obtain ⟨r, hmove, rfl⟩ := Option.map_eq_some_iff.mp hstep
      exact h.keep rfl (fun htracks => htracks.move hmove) fun hhalts => hhalts.move hmove
  | tick param pins =>
      obtain ⟨htimer, hnext⟩ := Option.ite_none_right_eq_some.mp hstep
      obtain rfl := Option.some.inj hnext
      have htracks := h.tracks htimer
      refine h.keep rfl (fun _ => htracks.isr param pins) fun hhalts => ?_
      rw [hhalts.timer_off] at htimer
      exact Bool.noConfusion htimer
  | forceStop =>
      obtain ⟨hstopping, hnext⟩ := Option.ite_none_left_eq_some.mp hstep
      obtain rfl := Option.some.inj hnext
      exact ⟨Bool.noConfusion, fun _ => (h.runs (by simpa using hstopping)).forceStopBegin⟩
  | stopReturn =>
      obtain ⟨hstopping, hnext⟩ := Option.ite_none_right_eq_some.mp hstep
      obtain rfl := Option.some.inj hnext
      exact ⟨fun _ => (h.stops hstopping).forceStopEnd, Bool.noConfusion⟩
  | threadDelete =>
      obtain rfl := Option.some.inj hstep
      exact h.keep rfl (fun htracks => htracks.withEvent _) fun hhalts => hhalts.withEvent id

/-! ## Runs -/

/-- The record of a finished motion always goes to its slot exactly if no interrupt comes between
a `stepBlock_init` and the first load after it. -/
theorem writesBack_iff (as : List (BlockAction R)) :
    (blockRun R).AllTransitions BlockRun.WritesBack .boot as ↔
      (blockRun R).AllSteps BlockRun.HasMotion .boot as := by
  have hboot : (BlockRun.boot : BlockRun R).Inv := ⟨fun _ => start_tracks _, Bool.noConfusion⟩
  refine Machine.allTransitions_iff_allSteps (J := BlockRun.Inv)
    (fun s a t h hstep => h.step hstep) ?_ hboot as
  intro s a t hinv hstep
  cases a with
  | tick param pins =>
      obtain ⟨htimer, -⟩ := Option.ite_none_right_eq_some.mp hstep
      have h := hinv.tracks htimer
      constructor
      · intro hwrites hnone
        -- no axis is busy, so the interrupt goes on to the record
        have hidle := ((h.execute param pins).fresh hnone).2
        obtain ⟨k, hk, -⟩ := hwrites hidle
        rw [(h.fresh hnone).1] at hk
        exact absurd hk (by simp)
      · intro hloaded _
        obtain ⟨k, hk⟩ := Option.ne_none_iff_exists'.mp hloaded
        obtain ⟨hcurrent, -, hcommand⟩ := h.current htimer k hk
        exact ⟨k, hcurrent, hk, hcommand⟩
  | _ => exact Iff.rfl

end

/-- The interrupt that comes right after `stepBlock_init` finds no motion to write to. -/
theorem firstInterrupt_noMotion :
    ¬ (blockRun ℚ).AllTransitions BlockRun.WritesBack .boot
      [.tick sampleParam releasedPins] := by
  intro hall
  obtain ⟨k, hk, -⟩ := (hall _ rfl).1 rfl
  exact Option.some_ne_none k hk.symm

end TdPrinter
