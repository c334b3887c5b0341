import TdPrinter.Motion.PlannerPasses
import TdPrinter.Motion.StepBlock

/-!
# What the pieces of the step block do

One rule for each piece of `libStepBlock.c`, so that the machines built from them
never look inside.  `StepBlock.Sound` is what every piece outside
`stepBlock_forceStop` keeps:

* the count stays below the number of slots and agrees with the two indices;
* the slot of the motion being executed is the free slot in front of `tail`, so the
  record that the interrupt writes there touches no queued motion;
* `STEP_EVENT_BLOCK_IDLE` is clear while the step timer runs, and no suspended
  thread is going to clear it.

That the flag is set whenever the timer stands still, `StepBlock.Armed`, is kept by
all pieces but one: the test at the end of `stepBlock_inputMotion` clears the flag
and then finds nothing to load if the queue has run empty by then.

Loading the next motion is the only way a motion leaves the queue.
-/

namespace TdPrinter

/-- The joint state of the counters, the indices, the event and the timer. -/
structure StepBlock.Sound {R : Type*} (sb : StepBlock R) : Prop where
  len_le : sb.len ≤ motionBufferSize - 1
  head_eq : sb.head = slot sb.tail sb.len
  current_eq : sb.timer.enabled = true →
    sb.currentBuffer = some (slot sb.tail (motionBufferSize - 1))
  idle_off : .blockIdle ∈ sb.event.set → sb.timer.enabled = false
  unclaimed : sb.event.Unclaimed .blockIdle

/-- `STEP_EVENT_BLOCK_IDLE` is set while the timer stands still: the next insertion
will start it. -/
def StepBlock.Armed {R : Type*} (sb : StepBlock R) : Prop :=
  sb.timer.enabled = false → .blockIdle ∈ sb.event.set

/-! ## The event -/

theorem recvComplete_unclaims : .blockIdle ∉ recvComplete.want := by
  simp [recvComplete]

/-- The receive of `STEP_EVENT_BLOCK_COMPLETE` leaves the other flag alone. -/
theorem mem_recvComplete {e : Event Thread StepEvent} {wait : Bool} :
    .blockIdle ∈ (rtEventRecv e recvComplete wait).1.set ↔ .blockIdle ∈ e.set := by
  unfold rtEventRecv
  split
  · exact Receiver.mem_consume fun _ => recvComplete_unclaims
  · split <;> rfl

/-- The receive that clears `STEP_EVENT_BLOCK_IDLE` succeeds when the flag is set. -/
theorem recvIdleClear_of_mem {e : Event Thread StepEvent} (h : .blockIdle ∈ e.set) :
    rtEventRecv e recvIdleClear false = ({ e with set := e.set \ {.blockIdle} }, some .eok) := by
  simp [rtEventRecv, Receiver.satisfied, Receiver.consume, recvIdleClear, h]

theorem recvIdleClear_of_notMem {e : Event Thread StepEvent} (h : .blockIdle ∉ e.set) :
    rtEventRecv e recvIdleClear false = (e, some .etimeout) := by
  simp [rtEventRecv, Receiver.satisfied, recvIdleClear, h]

/-- `stepBlock_waitForIdle` returns at once when the flag is set and leaves it set;
otherwise it suspends its caller. -/
theorem waitForIdle_cases {R : Type*} (sb : StepBlock R) (t : Thread) :
    (.blockIdle ∈ sb.event.set ∧ stepBlockWaitForIdle sb t = (sb, some .eok)) ∨
      (.blockIdle ∉ sb.event.set ∧ stepBlockWaitForIdle sb t =
        ({ sb with
          event := { sb.event with suspended := sb.event.suspended ++ [recvIdle t] } }, none)) := by
  by_cases hmem : .blockIdle ∈ sb.event.set
  · refine Or.inl ⟨hmem, ?_⟩
    simp [stepBlockWaitForIdle, rtEventRecv, Receiver.satisfied, Receiver.consume, recvIdle, hmem]
  · refine Or.inr ⟨hmem, ?_⟩
    simp [stepBlockWaitForIdle, rtEventRecv, Receiver.satisfied, recvIdle, hmem]

section

variable {R : Type*}

/-- What `Sound` needs of a change that only concerns threads and the flag
`STEP_EVENT_BLOCK_COMPLETE`. -/
theorem StepBlock.Sound.withEvent {sb : StepBlock R} (h : sb.Sound)
    {e : Event Thread StepEvent} (hset : .blockIdle ∈ e.set → .blockIdle ∈ sb.event.set)
    (hunclaimed : e.Unclaimed .blockIdle) : StepBlock.Sound { sb with event := e } where
  len_le := h.len_le
  head_eq := h.head_eq
  current_eq := h.current_eq
  idle_off hmem := h.idle_off (hset hmem)
  unclaimed := hunclaimed

theorem StepBlock.Sound.withStepAxis {sb : StepBlock R} (h : sb.Sound) (a : StepAxis R) :
    StepBlock.Sound { sb with stepAxis := a } :=
  ⟨h.len_le, h.head_eq, h.current_eq, h.idle_off, h.unclaimed⟩

theorem StepBlock.Sound.withBuffer {sb : StepBlock R} (h : sb.Sound) (buf : MotionBuffer R) :
    StepBlock.Sound { sb with buffer := buf } :=
  ⟨h.len_le, h.head_eq, h.current_eq, h.idle_off, h.unclaimed⟩

theorem StepBlock.Sound.waitForIdle {sb : StepBlock R} (h : sb.Sound) (t : Thread) :
    (stepBlockWaitForIdle sb t).1.Sound := by
  refine h.withEvent ?_ (h.unclaimed.recv (by simp [recvIdle]))
  show _ ∈ (stepBlockWaitForIdle sb t).1.event.set → _
  rcases waitForIdle_cases sb t with ⟨-, heq⟩ | ⟨-, heq⟩
  · rw [heq]
    exact id
  · rw [heq]
    exact id

theorem StepBlock.Sound.expire {sb : StepBlock R} (h : sb.Sound) (t : Thread) :
    StepBlock.Sound { sb with event := rtEventExpire sb.event t } :=
  h.withEvent id (h.unclaimed.expire t)

theorem StepBlock.Sound.recvComplete {sb : StepBlock R} (h : sb.Sound) (wait : Bool) :
    (stepBlockRecvComplete sb wait).1.Sound :=
  h.withEvent mem_recvComplete.mp (h.unclaimed.recv fun _ _ => recvComplete_unclaims)

/-! ## The pieces of stepBlock_inputMotion -/

/-- The slot that an insertion writes holds no queued motion. -/
theorem StepBlock.Sound.slot_ne_head {sb : StepBlock R} (h : sb.Sound) {k : ℕ}
    (hk : k < sb.len) : slot sb.tail k ≠ sb.head := by
  intro heq
  rw [h.head_eq] at heq
  have hlt : sb.len < motionBufferSize :=
    Nat.lt_of_le_of_lt h.len_le (show 15 < motionBufferSize by decide)
  exact hk.ne (slot_injective (hk.trans hlt) hlt heq)

theorem insert_queue {sb : StepBlock R} (h : sb.Sound) (hroom : sb.HasRoom)
    (block : MotionLine R) : (stepBlockInsert sb block).queue = sb.queue ++ [block] := by
  have hlt : sb.len < motionBufferSize := lt_of_lt_of_le hroom (Nat.sub_le _ _)
  simp only [StepBlock.queue, stepBlockInsert, h.head_eq]
  exact window_push hlt block

theorem StepBlock.Sound.insert {sb : StepBlock R} (h : sb.Sound) (hroom : sb.HasRoom)
    (block : MotionLine R) : (stepBlockInsert sb block).Sound where
  len_le := hroom
  head_eq := by
    show inc sb.head = slot sb.tail (sb.len + 1)
    rw [h.head_eq, inc_eq_slot, slot_slot]
  current_eq := h.current_eq
  idle_off := h.idle_off
  unclaimed := h.unclaimed

/-! ## stepBlock_forceStop -/

/-- Between the two halves of `stepBlock_forceStop` nothing can start: the timer
stands still, the flag that would start it is clear and the queue is empty. -/
structure StepBlock.Halted (sb : StepBlock R) : Prop where
  len_eq : sb.len = 0
  timer_off : sb.timer.enabled = false
  idle_clear : .blockIdle ∉ sb.event.set
  unclaimed : sb.event.Unclaimed .blockIdle

theorem forceStopBegin_halted {sb : StepBlock R} (h : sb.event.Unclaimed .blockIdle) :
    (stepBlockForceStopBegin sb).Halted := by
  have hrecv : (rtEventRecv sb.event recvIdleClear false).1.Unclaimed .blockIdle :=
    h.recv (by simp)
  refine ⟨rfl, rfl, ?_, hrecv.send _⟩
  show _ ∉ (rtEventSend _ _).set
  rw [mem_set_send hrecv]
  -- the receive clears the flag where it is set, and only the other one is sent
  by_cases hmem : .blockIdle ∈ sb.event.set
  · simp [recvIdleClear_of_mem hmem]
  · simp [recvIdleClear_of_notMem hmem, hmem]

theorem forceStopEnd_sound {sb : StepBlock R} (hoff : sb.timer.enabled = false)
    (h : sb.event.Unclaimed .blockIdle) : (stepBlockForceStopEnd sb).Sound where
  len_le := Nat.zero_le _
  head_eq := rfl
  current_eq htimer := by simp [stepBlockForceStopEnd, hoff] at htimer
  idle_off _ := hoff
  unclaimed := (h.send _).send _

theorem StepBlock.Halted.forceStopEnd_armed {sb : StepBlock R} (h : sb.Halted) :
    (stepBlockForceStopEnd sb).Armed := by
  intro _
  show _ ∈ (rtEventSend _ _).set
  rw [mem_set_send (h.unclaimed.send _)]
  simp

/-! ## The record of a finished motion -/

/-- The record of the finished motion goes to a slot outside the queue. -/
theorem writeBack_queue {sb : StepBlock R} (h : sb.Sound) (htimer : sb.timer.enabled = true) :
    (stepBlockWriteBack sb).queue = sb.queue := by
  simp only [stepBlockWriteBack, h.current_eq htimer, StepBlock.queue]
  apply window_congr
  intro k hk
  refine Function.update_of_ne ?_ _ _
  -- the record lies at distance 15 from `tail`, the queue ends before that
  intro heq
  have hk : k < motionBufferSize - 1 := lt_of_lt_of_le hk h.len_le
  exact hk.ne (slot_injective (hk.trans_le (Nat.sub_le _ _)) (by decide) heq)

theorem writeBack_frame (sb : StepBlock R) :
    ∃ buf, stepBlockWriteBack sb = { sb with buffer := buf } := by
  unfold stepBlockWriteBack
  split
  · exact ⟨sb.buffer, rfl⟩
  · exact ⟨_, rfl⟩

theorem StepBlock.Sound.writeBack {sb : StepBlock R} (h : sb.Sound) :
    (stepBlockWriteBack sb).Sound := by
  obtain ⟨buf, hback⟩ := writeBack_frame sb
  rw [hback]
  exact h.withBuffer buf

/-- The call of `stepBlock_step` is skipped when no axis is busy. -/
theorem step_frame (pins : TriggerPins) (sb : StepBlock R) :
    ∃ axis counter, stepBlockStep pins sb =
      { sb with stepAxis := axis, masterCounter := counter } ∧
      ((stepBlockIsBusy sb = true ∧ axis = stepAxisStep sb.stepAxis pins) ∨
        (stepBlockIsBusy sb = false ∧ axis = sb.stepAxis)) := by
  unfold stepBlockStep
  split
  · rename_i hbusy
    exact ⟨_, _, rfl, Or.inl ⟨hbusy, rfl⟩⟩
  · rename_i hbusy
    exact ⟨_, _, rfl, Or.inr ⟨Bool.eq_false_iff.mpr hbusy, rfl⟩⟩

end

section

variable {R : Type*} [Field R] [LinearOrder R] [FloorRing R]

/-! ## Loading -/

/-- From `sb` the oldest motion `line` has been loaded and `rest` stays queued. -/
structure Loads (sb sb' : StepBlock R) (line : MotionLine R) (rest : List (MotionLine R)) :
    Prop where
  queue_before : sb.queue = line :: rest
  queue_after : sb'.queue = rest
  currentLine_eq : sb'.currentLine = line
  timer_on : sb'.timer.enabled = true
  stepAxis_eq : ∃ advance, sb'.stepAxis =
    stepAxisSetAdvance (stepAxisReload sb.stepAxis line.masterStep line.steps line.dir) advance
  tail_ne : sb'.tail ≠ sb.tail

theorem Loads.len_ne {sb sb' : StepBlock R} {line : MotionLine R} {rest : List (MotionLine R)}
    (h : Loads sb sb' line rest) : sb.len ≠ 0 := by
  rw [sb.len_eq_length, h.queue_before]
  exact Nat.succ_ne_zero _

theorem inc_ne (num : Fin motionBufferSize) : inc num ≠ num := by
  have hnum : num.val < 16 := num.isLt
  intro heq
  rw [inc_eq_slot, Fin.ext_iff] at heq
  change (num.val + 1) % 16 = num.val at heq
  omega

theorem load_loads {sb : StepBlock R} (param : Param R) {line : MotionLine R}
    {rest : List (MotionLine R)} (h : sb.queue = line :: rest) :
    Loads sb (stepBlockLoad param sb) line rest := by
  obtain ⟨n, hn⟩ : ∃ n, sb.len = n + 1 :=
    ⟨rest.length, by rw [sb.len_eq_length, h, List.length_cons]⟩
  have hqueue := h
  rw [StepBlock.queue, hn, window_succ] at h
  obtain ⟨rfl, rfl⟩ := List.cons.inj h
  refine ⟨hqueue, ?_, rfl, rfl, ⟨_, rfl⟩, inc_ne _⟩
  simp [StepBlock.queue, stepBlockLoad, hn, inc_eq_slot]

/-- Loading clears every flag, so the sends that follow decide the event. -/
theorem load_event (param : Param R) (sb : StepBlock R) :
    (stepBlockLoad param sb).event = rtEventReset sb.event := rfl

theorem load_sound {sb : StepBlock R} (param : Param R) (hlen : 0 < sb.len)
    (hle : sb.len ≤ motionBufferSize - 1) (hhead : sb.head = slot sb.tail sb.len) :
    (stepBlockLoad param sb).Sound := by
  constructor
  · show sb.len - 1 ≤ motionBufferSize - 1
    omega
  · show sb.head = slot (inc sb.tail) (sb.len - 1)
    rw [hhead, inc_eq_slot, slot_slot, Nat.add_sub_cancel' hlen]
  · -- the slot that has just been left is the free one in front of the new `tail`
    intro _
    show some sb.tail = some (slot (inc sb.tail) 15)
    rw [inc_eq_slot, slot_slot]
    congr 1
    have htail : sb.tail.val < 16 := sb.tail.isLt
    ext
    show sb.tail.val = (sb.tail.val + (1 + 15)) % 16
    omega
  · simp [stepBlockLoad, rtEventReset, stepTimerSetEnable]
  · exact Event.Unclaimed.reset _ _

section

variable [Sqrtf R]

theorem StepBlock.Sound.replan {sb : StepBlock R} (h : sb.Sound) (block : MotionLine R) :
    (stepBlockReplan sb block).Sound := by
  unfold stepBlockReplan
  split
  · exact h.withBuffer _
  · exact h

theorem replan_pending {sb : StepBlock R} (h : sb.Sound) (block : MotionLine R) :
    (stepBlockReplan sb block).pending = sb.pending := by
  unfold stepBlockReplan
  split
  · exact pending_plannerRecalculate (Nat.lt_of_le_of_lt h.len_le (by decide)) h.head_eq
  · rfl

theorem replan_frame (sb : StepBlock R) (block : MotionLine R) :
    ∃ buf, stepBlockReplan sb block = { sb with buffer := buf } := by
  unfold stepBlockReplan
  split
  · exact ⟨_, rfl⟩
  · exact ⟨sb.buffer, rfl⟩

end

/-- The test at the end of `stepBlock_inputMotion`: the flag is clear and nothing
happens, or the oldest motion is loaded, or there is none and the flag is lost. -/
theorem idleTest_cases {sb : StepBlock R} (param : Param R) (h : sb.Sound) :
    (stepBlockIdleTest param sb).Sound ∧
      ((.blockIdle ∉ sb.event.set ∧ stepBlockIdleTest param sb = sb) ∨
        (.blockIdle ∈ sb.event.set ∧
          ∃ line rest, Loads sb (stepBlockIdleTest param sb) line rest) ∨
        (.blockIdle ∈ sb.event.set ∧ sb.len = 0 ∧
          stepBlockIdleTest param sb =
            { sb with event := { sb.event with set := sb.event.set \ {.blockIdle} } })) := by
  by_cases hmem : .blockIdle ∈ sb.event.set
  · let cleared : StepBlock R :=
      { sb with event := { sb.event with set := sb.event.set \ {.blockIdle} } }
    rcases Nat.eq_zero_or_pos sb.len with hlen | hlen
    · -- nothing is loaded, and stopping a timer that stands still changes nothing
      have hoff := h.idle_off hmem
      have htimer : stepTimerSetEnable sb.timer false = sb.timer := by
        rw [stepTimerSetEnable, ← hoff]
      have hlost : stepBlockIdleTest param sb = cleared := by
        simp [stepBlockIdleTest, recvIdleClear_of_mem hmem, stepBlockLoadNextMotion, hlen, htimer,
          cleared]
      rw [hlost]
      refine ⟨h.withEvent (fun hm => (Finset.mem_sdiff.mp hm).1) h.unclaimed, ?_⟩
      exact Or.inr (Or.inr ⟨hmem, hlen, rfl⟩)
    · have hload : stepBlockIdleTest param sb = stepBlockLoad param cleared := by
        simp [stepBlockIdleTest, recvIdleClear_of_mem hmem, stepBlockLoadNextMotion, hlen, cleared]
      obtain ⟨line, rest, hqueue⟩ : ∃ line rest, sb.queue = line :: rest := by
        rw [← List.length_pos_iff_exists_cons, ← sb.len_eq_length]
        exact hlen
      have hloads : Loads cleared _ line rest := load_loads param hqueue
      rw [hload]
      exact ⟨load_sound param hlen h.len_le h.head_eq, Or.inr (Or.inl ⟨hmem, line,
        rest, ⟨hqueue, hloads.queue_after, hloads.currentLine_eq, hloads.timer_on,
          hloads.stepAxis_eq, hloads.tail_ne⟩⟩)⟩
  · have hsame : stepBlockIdleTest param sb = sb := by
      simp [stepBlockIdleTest, recvIdleClear_of_notMem hmem]
    rw [hsame]
    exact ⟨h, Or.inl ⟨hmem, rfl⟩⟩

/-! ## stepBlock_ISR -/

theorem ramp_frame (sb : StepBlock R) :
    ∃ rateNominal rateExit rate elapsed timer,
      stepBlockRamp sb =
        { sb with
          currentLine :=
            { sb.currentLine with trueNominalRate := rateNominal, trueExitRate := rateExit }
          currentRate := rate
          timeElasped := elapsed
          timer := timer } ∧ timer.enabled = sb.timer.enabled := by
  unfold stepBlockRamp
  split
  · dsimp only
    split
    · exact ⟨_, _, _, _, _, rfl, rfl⟩
    · split
      · exact ⟨_, _, _, _, _, rfl, rfl⟩
      · exact ⟨_, _, _, _, _, rfl, rfl⟩
  · exact ⟨_, _, _, _, _, rfl, rfl⟩

/-- What the interrupt does before it looks at the end of the motion: it moves the
axes and the ramp on; queue, event and timer switch stay as they are. -/
theorem execute_frame (param : Param R) (pins : TriggerPins) (sb : StepBlock R) :
    ∃ axis rateNominal rateExit counter rate elapsed timer,
      stepBlockExecute param pins sb =
        { sb with
          stepAxis := axis
          currentLine :=
            { sb.currentLine with trueNominalRate := rateNominal, trueExitRate := rateExit }
          masterCounter := counter
          currentRate := rate
          timeElasped := elapsed
          timer := timer } ∧
      timer.enabled = sb.timer.enabled ∧
      ((stepBlockIsBusy sb = true ∧
          (axis = stepAxisStep sb.stepAxis pins ∨
            ∃ a, axis = stepAxisSetAdvance (stepAxisStep sb.stepAxis pins) a)) ∨
        (stepBlockIsBusy sb = false ∧
          (axis = sb.stepAxis ∨ ∃ a, axis = stepAxisSetAdvance sb.stepAxis a))) := by
  obtain ⟨axis, counter, hstep, haxis⟩ := step_frame pins sb
  obtain ⟨rateNominal, rateExit, rate, elapsed, timer, hramp, htimer⟩ :=
    ramp_frame (stepBlockStep pins sb)
  rw [hstep] at hramp htimer
  rw [stepBlockExecute, hstep, hramp, stepBlockAdvance]
  split
  · -- the extruder is moved as well, which adds its advance
    refine ⟨_, _, _, _, _, _, _, rfl, htimer, ?_⟩
    rcases haxis with ⟨hbusy, rfl⟩ | ⟨hbusy, rfl⟩
    · exact Or.inl ⟨hbusy, Or.inr ⟨_, rfl⟩⟩
    · exact Or.inr ⟨hbusy, Or.inr ⟨_, rfl⟩⟩
  · refine ⟨_, _, _, _, _, _, _, rfl, htimer, ?_⟩
    rcases haxis with ⟨hbusy, rfl⟩ | ⟨hbusy, rfl⟩
    · exact Or.inl ⟨hbusy, Or.inl rfl⟩
    · exact Or.inr ⟨hbusy, Or.inl rfl⟩

theorem execute_queue (param : Param R) (pins : TriggerPins) (sb : StepBlock R) :
    (stepBlockExecute param pins sb).queue = sb.queue := by
  obtain ⟨_, _, _, _, _, _, _, h, -⟩ := execute_frame param pins sb
  rw [h]
  rfl

theorem StepBlock.Sound.execute {sb : StepBlock R} (h : sb.Sound) (param : Param R)
    (pins : TriggerPins) : (stepBlockExecute param pins sb).Sound := by
  obtain ⟨_, _, _, _, _, _, _, hexec, htimer, -⟩ := execute_frame param pins sb
  rw [hexec]
  exact ⟨h.len_le, h.head_eq, fun ht => h.current_eq (htimer ▸ ht),
    fun hmem => htimer.trans (h.idle_off hmem), h.unclaimed⟩

/-- The end of a motion with nothing queued: the timer stops and both flags are
set. -/
theorem complete_of_empty {sb : StepBlock R} (param : Param R) (h : sb.Sound)
    (hlen : sb.len = 0) :
    (stepBlockComplete param sb).Sound ∧ (stepBlockComplete param sb).Armed ∧
      (stepBlockComplete param sb).timer.enabled = false ∧
      (stepBlockComplete param sb).len = 0 ∧
      (stepBlockComplete param sb).stepAxis = sb.stepAxis ∧
      (stepBlockComplete param sb).tail = sb.tail ∧
      (stepBlockComplete param sb).currentLine = sb.currentLine := by
  obtain ⟨buf, hback⟩ := writeBack_frame sb
  have hcomplete : stepBlockComplete param sb =
      { sb with
        buffer := buf
        timer := stepTimerSetEnable sb.timer false
        event := rtEventSend (rtEventSend sb.event {.blockComplete}) {.blockIdle} } := by
    simp [stepBlockComplete, hback, stepBlockLoadNextMotion, hlen]
  have hcompleted : (rtEventSend sb.event {StepEvent.blockComplete}).Unclaimed .blockIdle :=
    h.unclaimed.send _
  rw [hcomplete]
  refine ⟨⟨h.len_le, h.head_eq, ?_, fun _ => rfl, hcompleted.send _⟩, ?_, rfl, hlen, rfl, rfl, rfl⟩
  · intro henabled
    simp [stepTimerSetEnable] at henabled
  · intro _
    rw [mem_set_send hcompleted]
    simp

/-- The end of a motion with others queued: the oldest one is loaded and
`STEP_EVENT_BLOCK_COMPLETE` is sent. -/
theorem complete_of_queued {sb : StepBlock R} (param : Param R) (hlen : 0 < sb.len) :
    stepBlockComplete param sb =
      { stepBlockLoad param (stepBlockWriteBack sb) with
        event := rtEventSend (rtEventReset sb.event) {.blockComplete} } := by
  obtain ⟨buf, hback⟩ := writeBack_frame sb
  simp [stepBlockComplete, hback, stepBlockLoadNextMotion, hlen, load_event]

theorem StepBlock.Sound.complete {sb : StepBlock R} (h : sb.Sound) (param : Param R) :
    (stepBlockComplete param sb).Sound := by
  rcases Nat.eq_zero_or_pos sb.len with hlen | hlen
  · exact (complete_of_empty param h hlen).1
  · obtain ⟨buf, hback⟩ := writeBack_frame sb
    have hreset := Event.Unclaimed.reset sb.event StepEvent.blockIdle
    have hloaded : (stepBlockLoad param (stepBlockWriteBack sb)).Sound :=
      load_sound param (by rwa [hback]) h.writeBack.len_le h.writeBack.head_eq
    rw [complete_of_queued param hlen]
    refine hloaded.withEvent ?_ (hreset.send _)
    rw [mem_set_send hreset]
    simp [rtEventReset]

/-- The end of a motion with others queued loads the oldest one. -/
theorem complete_loads {sb : StepBlock R} (param : Param R) (h : sb.Sound)
    (htimer : sb.timer.enabled = true) {line : MotionLine R} {rest : List (MotionLine R)}
    (hqueue : sb.queue = line :: rest) : Loads sb (stepBlockComplete param sb) line rest := by
  have hlen : 0 < sb.len := by
    rw [sb.len_eq_length, hqueue, List.length_cons]
    exact Nat.succ_pos _
  obtain ⟨buf, hback⟩ := writeBack_frame sb
  have hbackQueue : (stepBlockWriteBack sb).queue = line :: rest := by
    rw [writeBack_queue h htimer, hqueue]
  have hload := load_loads param hbackQueue
  rw [hback] at hload
  rw [complete_of_queued param hlen, hback]
  exact ⟨hqueue, hload.queue_after, hload.currentLine_eq, hload.timer_on, hload.stepAxis_eq,
    hload.tail_ne⟩

/-! ## The interrupt as a whole -/

/-- The timer has been stopped at the end of the last motion. -/
structure Stops (sb sb' : StepBlock R) : Prop where
  queue_before : sb.queue = []
  queue_after : sb'.queue = []
  timer_off : sb'.timer.enabled = false
  armed : sb'.Armed
  stepAxis_eq : sb'.stepAxis = sb.stepAxis
  tail_eq : sb'.tail = sb.tail
  currentLine_eq : sb'.currentLine = sb.currentLine

/-- The three outcomes of an interrupt: the motion goes on, the next one is loaded,
or the timer stops. -/
theorem isr_cases {sb : StepBlock R} (param : Param R) (pins : TriggerPins) (h : sb.Sound)
    (htimer : sb.timer.enabled = true) :
    (stepBlockISR param pins sb).Sound ∧
      ((stepBlockIsBusy (stepBlockExecute param pins sb) = true ∧
          stepBlockISR param pins sb = stepBlockExecute param pins sb) ∨
        stepBlockIsBusy (stepBlockExecute param pins sb) = false ∧
          ((∃ line rest,
              Loads (stepBlockExecute param pins sb) (stepBlockISR param pins sb) line rest) ∨
            Stops (stepBlockExecute param pins sb) (stepBlockISR param pins sb))) := by
  have hexec := h.execute param pins
  have hon : (stepBlockExecute param pins sb).timer.enabled = true := by
    obtain ⟨_, _, _, _, _, _, _, heq, henabled, -⟩ := execute_frame param pins sb
    rw [heq]
    exact henabled.trans htimer
  simp only [stepBlockISR]
  cases hbusy : stepBlockIsBusy (stepBlockExecute param pins sb) with
  | true =>
      rw [if_pos rfl]
      exact ⟨hexec, Or.inl ⟨rfl, rfl⟩⟩
  | false =>
      -- the motion is over: the queue decides how it goes on
      rw [if_neg Bool.false_ne_true]
      refine ⟨hexec.complete param, Or.inr ⟨rfl, ?_⟩⟩
      cases hqueue : (stepBlockExecute param pins sb).queue with
      | nil =>
          have hlen : (stepBlockExecute param pins sb).len = 0 := by
            rw [StepBlock.len_eq_length, hqueue, List.length_nil]
          obtain ⟨-, harmed, hoff, hlen', haxis, htail, hline⟩ := complete_of_empty param hexec hlen
          refine Or.inr ⟨hqueue, ?_, hoff, harmed, haxis, htail, hline⟩
          rw [StepBlock.queue, hlen', window_zero]
      | cons line rest => exact Or.inl ⟨line, rest, complete_loads param hexec hon hqueue⟩

/-- After an interrupt the flag is set if the timer stands still, and the queue is
empty then. -/
theorem isr_armed {sb : StepBlock R} (param : Param R) (pins : TriggerPins) (h : sb.Sound)
    (htimer : sb.timer.enabled = true) :
    (stepBlockISR param pins sb).Armed ∧
      ((stepBlockISR param pins sb).timer.enabled = false →
        (stepBlockISR param pins sb).queue = []) := by
  obtain ⟨-, ⟨-, heq⟩ | ⟨-, ⟨line, rest, hload⟩ | hstop⟩⟩ := isr_cases param pins h htimer
  · obtain ⟨_, _, _, _, _, _, _, hframe, henabled, -⟩ := execute_frame param pins sb
    have hon : (stepBlockISR param pins sb).timer.enabled = true := by
      rw [heq, hframe]
      exact henabled.trans htimer
    exact ⟨fun hoff => by simp [hon] at hoff, fun hoff => by simp [hon] at hoff⟩
  · exact ⟨fun hoff => by simp [hload.timer_on] at hoff,
      fun hoff => by simp [hload.timer_on] at hoff⟩
  · exact ⟨hstop.armed, fun _ => hstop.queue_after⟩

/-- The test at the end of `stepBlock_inputMotion` resumes only threads that are
suspended. -/
theorem idleTest_absent {sb : StepBlock R} {t : Thread} (h : sb.event.Absent t)
    (ht : .gcodeThread ≠ t) (param : Param R) : (stepBlockIdleTest param sb).event.Absent t := by
  have hrecv : (rtEventRecv sb.event recvIdleClear false).1.Absent t :=
    h.of_noNews (noNews_recv _ ht _)
  simp only [stepBlockIdleTest, stepBlockLoadNextMotion]
  split
  · split
    · exact hrecv.reset
    · exact hrecv
  · exact hrecv

/-- An interrupt resumes only threads that are suspended. -/
theorem isr_absent {sb : StepBlock R} {t : Thread} (h : sb.event.Absent t) (param : Param R)
    (pins : TriggerPins) : (stepBlockISR param pins sb).event.Absent t := by
  have hexec : (stepBlockExecute param pins sb).event = sb.event := by
    obtain ⟨_, _, _, _, _, _, _, hframe, -⟩ := execute_frame param pins sb
    rw [hframe]
  simp only [stepBlockISR]
  rw [← hexec] at h
  generalize stepBlockExecute param pins sb = sb at h
  split
  · exact h
  · obtain ⟨buf, hback⟩ := writeBack_frame sb
    simp only [stepBlockComplete, hback, stepBlockLoadNextMotion]
    by_cases hlen : sb.len > 0
    · simp only [hlen, if_true]
      exact h.reset.send _
    · simp only [hlen, if_false, Bool.false_eq_true]
      exact (h.send _).send _

theorem isr_len_le {sb : StepBlock R} (param : Param R) (pins : TriggerPins) (h : sb.Sound)
    (htimer : sb.timer.enabled = true) : (stepBlockISR param pins sb).len ≤ sb.len := by
  rw [StepBlock.len_eq_length, sb.len_eq_length, ← execute_queue param pins sb]
  obtain ⟨-, ⟨-, heq⟩ | ⟨-, ⟨line, rest, hload⟩ | hstop⟩⟩ := isr_cases param pins h htimer
  · rw [heq]
  · rw [hload.queue_before, hload.queue_after, List.length_cons]
    exact Nat.le_succ _
  · rw [hstop.queue_after]
    exact Nat.zero_le _

end

end TdPrinter
