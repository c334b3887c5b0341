import TdPrinter.Motion.StepBlockSpec

/-!
# Counting steps through the motion queue

`StepBlock.projected sb i` is the hardware position that axis `i` will have once
everything accepted so far has been executed: the present one, the steps left in
the current motion and those of the queued motions.  An interrupt moves steps from
the second and third summand to the first and never changes the sum, as long as no
axis is stopped short.

`StepBlock.Tallied` holds in every run, `StepBlock.Undisturbed` in the runs without
end switches and forced stops.
-/

namespace TdPrinter

section

variable {R : Type*}

/-- The hardware position of axis `i` after the current and all queued motions. -/
def StepBlock.projected (sb : StepBlock R) (i : Axis) : ℤ :=
  sb.stepAxis.hardPos i + sb.stepAxis.remaining i + signedSteps sb.pending i

/-- No axis overshoots, and no motion asks for a negative number of steps. -/
structure StepBlock.Tallied (sb : StepBlock R) : Prop where
  counted : sb.stepAxis.Counted
  queued_nonneg : ∀ c ∈ sb.pending, ∀ i, 0 ≤ c.steps i

/-- No axis has been stopped short, and none can be. -/
structure StepBlock.Undisturbed (sb : StepBlock R) : Prop where
  complete : sb.stepAxis.Complete
  trigger_off : sb.stepAxis.enableTrigger = false
  settled : sb.timer.enabled = false → stepBlockIsBusy sb = false

/-! ## The initialised block -/

section

variable [Zero R]

@[simp] theorem init_queue : (stepBlockInit : StepBlock R).queue = [] := rfl

@[simp] theorem init_pending : (stepBlockInit : StepBlock R).pending = [] := rfl

@[simp] theorem init_remaining (i : Axis) :
    (stepBlockInit : StepBlock R).stepAxis.remaining i = 0 := rfl

theorem init_sound : (stepBlockInit : StepBlock R).Sound where
  len_le := Nat.zero_le _
  head_eq := rfl
  current_eq h := by simp [stepBlockInit, stepBlockReset] at h
  idle_off _ := rfl
  unclaimed r hr := by
    simp [stepBlockInit, stepBlockReset, rtEventSend, rtEventCreate, Event.wake] at hr

theorem init_armed : (stepBlockInit : StepBlock R).Armed := by
  intro _
  simp [stepBlockInit, stepBlockReset, rtEventSend, rtEventCreate, Event.wake]

theorem init_tallied : (stepBlockInit : StepBlock R).Tallied where
  counted := ⟨fun i h => by simp [stepBlockInit, stepBlockReset, stepAxisReset] at h,
    fun _ => le_refl _⟩
  queued_nonneg c hc := by simp at hc

theorem init_undisturbed : (stepBlockInit : StepBlock R).Undisturbed :=
  ⟨fun _ _ => rfl, rfl, fun _ => isBusy_eq_false_iff.mpr fun _ => rfl⟩

end

/-! ## Executing -/

/-- With the timer stopped and the queue empty the axes are where they were to go. -/
theorem projected_of_idle {sb : StepBlock R} (h : sb.Undisturbed)
    (htimer : sb.timer.enabled = false) (hlen : sb.len = 0) (i : Axis) :
    sb.projected i = sb.stepAxis.hardPos i := by
  have hremaining := h.complete.remaining_eq_zero (h.settled htimer) i
  simp [StepBlock.projected, StepBlock.pending, StepBlock.queue, hlen, hremaining]

end

section

variable {R : Type*} [Field R] [LinearOrder R] [FloorRing R]

/-- What the interrupt does to the step generator, up to the extruder advance. -/
theorem execute_stepAxis (param : Param R) (pins : TriggerPins) (sb : StepBlock R) :
    ∃ axis, (axis = sb.stepAxis ∨ axis = stepAxisStep sb.stepAxis pins) ∧
      ((stepBlockExecute param pins sb).stepAxis = axis ∨
        ∃ advance,
          (stepBlockExecute param pins sb).stepAxis = stepAxisSetAdvance axis advance) := by
  obtain ⟨_, _, _, _, _, _, _, hexec, -, haxis⟩ := execute_frame param pins sb
  rw [hexec]
  rcases haxis with ⟨-, haxis⟩ | ⟨-, haxis⟩
  · exact ⟨_, Or.inr rfl, haxis⟩
  · exact ⟨_, Or.inl rfl, haxis⟩

/-- Executing keeps the axes complete exactly if no switch stops one of them. -/
theorem execute_complete_iff {sb : StepBlock R} (htally : sb.Tallied)
    (hcomplete : sb.stepAxis.Complete) (param : Param R) (pins : TriggerPins) :
    (stepBlockExecute param pins sb).stepAxis.Complete ↔ ¬ sb.stepAxis.Trips pins := by
  obtain ⟨axis, _, _, _, _, _, _, hexec, -, haxis⟩ := execute_frame param pins sb
  have hstep := hcomplete.step_iff htally.counted pins
  rw [hexec]
  rcases haxis with ⟨-, rfl | ⟨advance, rfl⟩⟩ | ⟨hidle, haxis⟩
  · exact hstep
  · exact hstep
  · -- the axes are not advanced, and none of them is busy
    have hno : ¬ sb.stepAxis.Trips pins := by
      rintro ⟨-, i, hbusy, -⟩
      rw [isBusy_eq_false_iff.mp hidle i] at hbusy
      exact Bool.false_ne_true hbusy
    rcases haxis with rfl | ⟨advance, rfl⟩
    · exact iff_of_true hcomplete hno
    · exact iff_of_true hcomplete hno

theorem execute_stepNeed (param : Param R) (pins : TriggerPins) (sb : StepBlock R) :
    (stepBlockExecute param pins sb).stepAxis.stepNeed = sb.stepAxis.stepNeed := by
  obtain ⟨axis, rfl | rfl, haxis | ⟨advance, haxis⟩⟩ := execute_stepAxis param pins sb
  · rw [haxis]
  · rw [haxis]
    rfl
  · rw [haxis]
    rfl
  · rw [haxis]
    rfl

theorem execute_pending (param : Param R) (pins : TriggerPins) (sb : StepBlock R) :
    (stepBlockExecute param pins sb).pending = sb.pending := by
  rw [StepBlock.pending, execute_queue, StepBlock.pending]

theorem execute_timer (param : Param R) (pins : TriggerPins) (sb : StepBlock R) :
    (stepBlockExecute param pins sb).timer.enabled = sb.timer.enabled := by
  obtain ⟨_, _, _, _, _, _, _, hexec, htimer, -⟩ := execute_frame param pins sb
  rw [hexec]
  exact htimer

theorem execute_tail (param : Param R) (pins : TriggerPins) (sb : StepBlock R) :
    (stepBlockExecute param pins sb).tail = sb.tail := by
  obtain ⟨_, _, _, _, _, _, _, hexec, -⟩ := execute_frame param pins sb
  rw [hexec]

/-- Executing turns remaining steps into position. -/
theorem execute_projected (param : Param R) (pins : TriggerPins) (sb : StepBlock R) (i : Axis) :
    (stepBlockExecute param pins sb).projected i = sb.projected i := by
  obtain ⟨axis, hstep, haxis⟩ := execute_stepAxis param pins sb
  have hmove : axis.hardPos i + axis.remaining i =
      sb.stepAxis.hardPos i + sb.stepAxis.remaining i := by
    rcases hstep with rfl | rfl
    · rfl
    · exact step_hardPos_add_remaining _ _ _
  rw [StepBlock.projected, execute_pending, StepBlock.projected, ← hmove]
  rcases haxis with haxis | ⟨advance, haxis⟩
  · rw [haxis]
  · rw [haxis]
    rfl

theorem StepBlock.Tallied.execute {sb : StepBlock R} (h : sb.Tallied) (param : Param R)
    (pins : TriggerPins) : (stepBlockExecute param pins sb).Tallied := by
  obtain ⟨axis, hstep, haxis⟩ := execute_stepAxis param pins sb
  have hcounted : axis.Counted := by
    rcases hstep with rfl | rfl
    · exact h.counted
    · exact h.counted.step pins
  refine ⟨?_, by rw [execute_pending]; exact h.queued_nonneg⟩
  rcases haxis with haxis | ⟨advance, haxis⟩
  · rwa [haxis]
  · rw [haxis]
    exact ⟨hcounted.busy_need, hcounted.step_le⟩

theorem StepBlock.Undisturbed.execute {sb : StepBlock R} (h : sb.Undisturbed)
    (htally : sb.Tallied) (htimer : sb.timer.enabled = true) (param : Param R)
    (pins : TriggerPins) : (stepBlockExecute param pins sb).Undisturbed := by
  obtain ⟨axis, hstep, haxis⟩ := execute_stepAxis param pins sb
  have hcomplete : axis.Complete := by
    rcases hstep with rfl | rfl
    · exact h.complete
    · refine h.complete.step htally.counted ?_
      intro i hbusy hlt
      exact stillBusy_of_not_enableTrigger h.trigger_off hbusy hlt
  have htrigger : axis.enableTrigger = false := by
    rcases hstep with rfl | rfl <;> exact h.trigger_off
  have hon := (execute_timer param pins sb).trans htimer
  rcases haxis with haxis | ⟨advance, haxis⟩
  · exact ⟨by rwa [haxis], by rwa [haxis], fun hoff => by simp [hon] at hoff⟩
  · exact ⟨by rw [haxis]; exact hcomplete, by rw [haxis]; exact htrigger,
      fun hoff => by simp [hon] at hoff⟩

/-! ## Loading -/

theorem Loads.pending_before {sb sb' : StepBlock R} {line : MotionLine R}
    {rest : List (MotionLine R)} (h : Loads sb sb' line rest) :
    sb.pending = line.toCommand :: sb'.pending := by
  simp [StepBlock.pending, h.queue_before, h.queue_after]

theorem Loads.tallied {sb sb' : StepBlock R} {line : MotionLine R} {rest : List (MotionLine R)}
    (h : Loads sb sb' line rest) (htally : sb.Tallied) : sb'.Tallied := by
  have hnonneg := htally.queued_nonneg
  rw [h.pending_before] at hnonneg
  obtain ⟨advance, haxis⟩ := h.stepAxis_eq
  have hline : ∀ i, 0 ≤ line.steps i := hnonneg _ List.mem_cons_self
  have hcounted := reload_counted sb.stepAxis line.masterStep line.dir hline
  refine ⟨?_, fun c hc => hnonneg c (List.mem_cons_of_mem _ hc)⟩
  rw [haxis]
  exact ⟨hcounted.busy_need, hcounted.step_le⟩

theorem Loads.undisturbed {sb sb' : StepBlock R} {line : MotionLine R}
    {rest : List (MotionLine R)} (h : Loads sb sb' line rest) (htally : sb.Tallied)
    (hundisturbed : sb.Undisturbed) : sb'.Undisturbed := by
  have hnonneg := htally.queued_nonneg
  rw [h.pending_before] at hnonneg
  obtain ⟨advance, haxis⟩ := h.stepAxis_eq
  have hline : ∀ i, 0 ≤ line.steps i := hnonneg _ List.mem_cons_self
  refine ⟨?_, ?_, fun hoff => by simp [h.timer_on] at hoff⟩
  · rw [haxis]
    exact reload_complete sb.stepAxis line.masterStep line.dir hline
  · rw [haxis]
    exact hundisturbed.trigger_off

/-- Loading turns queued steps into remaining ones, once no steps remain from the
motion before. -/
theorem Loads.projected {sb sb' : StepBlock R} {line : MotionLine R}
    {rest : List (MotionLine R)} (h : Loads sb sb' line rest) {i : Axis}
    (hremaining : sb.stepAxis.remaining i = 0) : sb'.projected i = sb.projected i := by
  obtain ⟨advance, haxis⟩ := h.stepAxis_eq
  have hreload := reload_remaining sb.stepAxis line.masterStep line.steps line.dir i
  have hhard : sb'.stepAxis.hardPos i = sb.stepAxis.hardPos i := by rw [haxis]; rfl
  have hleft : sb'.stepAxis.remaining i = line.toCommand.signed i := by
    rw [haxis]
    exact hreload
  rw [StepBlock.projected, StepBlock.projected, h.pending_before, signedSteps_cons, hhard, hleft,
    hremaining]
  ring

/-! ## The interrupt -/

theorem StepBlock.Tallied.isr {sb : StepBlock R} (h : sb.Tallied) (hsound : sb.Sound)
    (htimer : sb.timer.enabled = true) (param : Param R) (pins : TriggerPins) :
    (stepBlockISR param pins sb).Tallied := by
  have hexec := h.execute param pins
  obtain ⟨-, ⟨-, heq⟩ | ⟨-, ⟨line, rest, hload⟩ | hstop⟩⟩ := isr_cases param pins hsound htimer
  · rwa [heq]
  · exact hload.tallied hexec
  · refine ⟨by rw [hstop.stepAxis_eq]; exact hexec.counted, ?_⟩
    intro c hc
    simp [StepBlock.pending, hstop.queue_after] at hc

/-- The interrupt rule: an undisturbed block stays undisturbed and heads for the same
position. -/
theorem StepBlock.Undisturbed.isr {sb : StepBlock R} (h : sb.Undisturbed) (hsound : sb.Sound)
    (htally : sb.Tallied) (htimer : sb.timer.enabled = true) (param : Param R)
    (pins : TriggerPins) :
    (stepBlockISR param pins sb).Undisturbed ∧
      ∀ i, (stepBlockISR param pins sb).projected i = sb.projected i := by
  have hexec := h.execute htally htimer param pins
  have hproj := execute_projected param pins sb
  obtain ⟨-, ⟨-, heq⟩ | ⟨hbusy, ⟨line, rest, hload⟩ | hstop⟩⟩ :=
    isr_cases param pins hsound htimer
  · rw [heq]
    exact ⟨hexec, hproj⟩
  · -- no steps remain from the motion that has ended
    refine ⟨hload.undisturbed (htally.execute param pins) hexec, ?_⟩
    intro i
    rw [hload.projected (hexec.complete.remaining_eq_zero hbusy i), hproj]
  · refine ⟨⟨?_, ?_, fun _ => ?_⟩, fun i => ?_⟩
    · rw [hstop.stepAxis_eq]
      exact hexec.complete
    · rw [hstop.stepAxis_eq]
      exact hexec.trigger_off
    · rw [stepBlockIsBusy, hstop.stepAxis_eq]
      exact hbusy
    · rw [← hproj i]
      simp [StepBlock.projected, StepBlock.pending, hstop.stepAxis_eq, hstop.queue_before,
        hstop.queue_after]

end

end TdPrinter
