import TdPrinter.Motion.Tally

/-!
# A call of stepBlock_inputMotion

The caller of `stepBlock_inputMotion` passes through the phases of `InputPhase`;
between two of them the interrupt and other threads can run.

    idle → full ⇄ asleep → ready → inserted → planned → idle

`full` is the wait loop, `asleep` the receive inside it.  A call that finds room
goes to `ready` at once.  `InputPhase.Inv` is what holds between any two pieces, and
`inputMove_cases` says once what a piece can do.
-/

namespace TdPrinter

/-- Where the caller of `stepBlock_inputMotion` is. -/
inductive InputPhase (R : Type*)
  /-- no call is in progress -/
  | idle
  /-- at the test of the wait loop -/
  | full (block : MotionLine R)
  /-- suspended in the receive of the wait loop -/
  | asleep (block : MotionLine R)
  /-- in front of the insertion -/
  | ready (block : MotionLine R)
  /-- between the insertion and the planner -/
  | inserted (block : MotionLine R)
  /-- between the planner and the test of `STEP_EVENT_BLOCK_IDLE` -/
  | planned

/-- The pieces of a call, and what ends a suspension. -/
inductive InputMove (R : Type*)
  | poll
  | expire
  | resume
  | insert
  | replan
  | idleTest (param : Param R)

section

variable {R : Type*}

def InputPhase.isIdle : InputPhase R → Bool
  | .idle => true
  | _ => false

theorem InputPhase.eq_idle_of_isIdle {phase : InputPhase R} (h : phase.isIdle = true) :
    phase = .idle := by
  cases phase with
  | idle => rfl
  | _ => simp [InputPhase.isIdle] at h

/-- The motion is in the buffer, but it has not been made sure that the timer runs. -/
def InputPhase.holding : InputPhase R → Bool
  | .inserted _ => true
  | .planned => true
  | _ => false

/-- The motion that is not yet in the buffer. -/
def InputPhase.waiting : InputPhase R → Option (MotionLine R)
  | .full block => some block
  | .asleep block => some block
  | .ready block => some block
  | _ => none

theorem InputPhase.not_holding_of_waiting {phase : InputPhase R} (h : phase.waiting ≠ none) :
    phase.holding = false := by
  cases phase with
  | inserted block => simp [InputPhase.waiting] at h
  | planned => simp [InputPhase.waiting] at h
  | _ => rfl

/-- The start of `stepBlock_inputMotion`, up to the first point where the caller can
be interrupted. -/
def stepBlockInputMotion (sb : StepBlock R) (block : MotionLine R) :
    InputPhase R × StepBlock R :=
  if sb.HasRoom then (.ready block, (stepBlockRecvComplete sb false).1) else (.full block, sb)

end

section

variable {R : Type*} [Field R] [LinearOrder R] [FloorRing R] [Sqrtf R]

/-- The next piece of `stepBlock_inputMotion`. -/
def inputMove : InputPhase R → StepBlock R → InputMove R → Option (InputPhase R × StepBlock R)
  | .full block, sb, .poll =>
      if sb.HasRoom then some (.ready block, sb)
      else
        match stepBlockRecvComplete sb true with
        | (sb', some _) => some (.full block, sb')
        | (sb', none) => some (.asleep block, sb')
  | .asleep block, sb, .expire =>
      if ∃ r ∈ sb.event.suspended, r.thread = .gcodeThread then
        some (.asleep block, { sb with event := rtEventExpire sb.event .gcodeThread })
      else none
  | .asleep block, sb, .resume =>
      (rtEventResume sb.event .gcodeThread).map fun r => (.full block, { sb with event := r.2 })
  | .ready block, sb, .insert =>
      if sb.HasRoom then some (.inserted block, stepBlockInsert sb block) else some (.idle, sb)
  | .inserted block, sb, .replan => some (.planned, stepBlockReplan sb block)
  | .planned, sb, .idleTest param => some (.idle, stepBlockIdleTest param sb)
  | _, _, _ => none

/-- What holds between any two pieces of a call. -/
structure InputPhase.Inv (phase : InputPhase R) (sb : StepBlock R) : Prop where
  sound : sb.Sound
  room : ∀ block, phase = .ready block → sb.HasRoom

/-- The caller waits: only the event changes. -/
structure Waits (phase phase' : InputPhase R) (sb sb' : StepBlock R) : Prop where
  waiting_eq : phase'.waiting = phase.waiting
  waiting_ne : phase.waiting ≠ none
  same : ∃ e, sb' = { sb with event := e }
  idle_iff : .blockIdle ∈ sb'.event.set ↔ .blockIdle ∈ sb.event.set
  noNews : sb.event.NoNews .corePrinterThread sb'.event

omit [Field R] [LinearOrder R] [FloorRing R] [Sqrtf R] in
/-- A call that starts finds itself waiting or in front of the insertion. -/
theorem inputMotion_waits {sb : StepBlock R} (h : sb.Sound) (block : MotionLine R) :
    (stepBlockInputMotion sb block).1.Inv (stepBlockInputMotion sb block).2 ∧
      (stepBlockInputMotion sb block).1.waiting = some block ∧
      ∃ e, (stepBlockInputMotion sb block).2 = { sb with event := e } ∧
        (.blockIdle ∈ e.set ↔ .blockIdle ∈ sb.event.set) ∧
        sb.event.NoNews .corePrinterThread e := by
  unfold stepBlockInputMotion
  split
  · rename_i hroom
    exact ⟨⟨h.recvComplete false, fun _ _ => hroom⟩, rfl, _, rfl, mem_recvComplete,
      noNews_recv _ (by decide) _⟩
  · exact ⟨⟨h, fun _ hready => by simp at hready⟩, rfl, sb.event, rfl, Iff.rfl, .refl _ _⟩

/-- The test of the wait loop, with the receive if there is no room yet. -/
theorem poll_waits {phase' : InputPhase R} {sb sb' : StepBlock R} {block : MotionLine R}
    (hsound : sb.Sound) (hmove : inputMove (.full block) sb .poll = some (phase', sb')) :
    phase'.Inv sb' ∧ Waits (.full block) phase' sb sb' := by
  simp only [inputMove] at hmove
  split at hmove
  · rename_i hroom
    obtain ⟨rfl, rfl⟩ := Prod.mk.inj (Option.some.inj hmove)
    exact ⟨⟨hsound, fun _ _ => hroom⟩, rfl, by simp [InputPhase.waiting], ⟨_, rfl⟩, Iff.rfl,
      .refl _ _⟩
  · have hrecv := hsound.recvComplete true
    have hnews : sb.event.NoNews .corePrinterThread (stepBlockRecvComplete sb true).1.event :=
      noNews_recv _ (by decide) _
    have hmem : .blockIdle ∈ (rtEventRecv sb.event recvComplete true).1.set ↔
        .blockIdle ∈ sb.event.set := mem_recvComplete
    cases hr : stepBlockRecvComplete sb true with
    | mk sb₁ err =>
        have hsb₁ : sb₁ = (stepBlockRecvComplete sb true).1 := by rw [hr]
        rw [hr] at hmove
        subst hsb₁
        -- whether the receive returns or suspends, the motion stays in front of the loop
        cases err with
        | none =>
            obtain ⟨rfl, rfl⟩ := Prod.mk.inj (Option.some.inj hmove)
            exact ⟨⟨hrecv, fun _ hready => by simp at hready⟩, rfl,
              by simp [InputPhase.waiting], ⟨_, rfl⟩, hmem, hnews⟩
        | some err =>
            obtain ⟨rfl, rfl⟩ := Prod.mk.inj (Option.some.inj hmove)
            exact ⟨⟨hrecv, fun _ hready => by simp at hready⟩, rfl,
              by simp [InputPhase.waiting], ⟨_, rfl⟩, hmem, hnews⟩

/-- What a piece of `stepBlock_inputMotion` can do. -/
theorem inputMove_cases {phase phase' : InputPhase R} {sb sb' : StepBlock R} {m : InputMove R}
    (hinv : phase.Inv sb) (hmove : inputMove phase sb m = some (phase', sb')) :
    phase'.Inv sb' ∧
      (Waits phase phase' sb sb' ∨
        (∃ block, phase = .ready block ∧ phase' = .inserted block ∧ sb.HasRoom ∧
          sb' = stepBlockInsert sb block) ∨
        (∃ block, phase = .inserted block ∧ phase' = .planned ∧
          sb' = stepBlockReplan sb block) ∨
        (∃ param, phase = .planned ∧ phase' = .idle ∧ sb' = stepBlockIdleTest param sb)) := by
  have hsound := hinv.sound
  cases phase with
  | idle => simp [inputMove] at hmove
  | full block =>
      cases m with
      | poll =>
          obtain ⟨hinv', hwaits⟩ := poll_waits hsound hmove
          exact ⟨hinv', Or.inl hwaits⟩
      | _ => simp [inputMove] at hmove
  | asleep block =>
      cases m with
      | expire =>
          simp only [inputMove] at hmove
          split at hmove
          · obtain ⟨rfl, rfl⟩ := Prod.mk.inj (Option.some.inj hmove)
            exact ⟨⟨hsound.expire _, fun _ hready => by simp at hready⟩,
              Or.inl ⟨rfl, by simp [InputPhase.waiting], ⟨_, rfl⟩, Iff.rfl,
                noNews_expire _ (by decide)⟩⟩
          · simp at hmove
      | resume =>
          simp only [inputMove, Option.map_eq_some_iff] at hmove
          obtain ⟨⟨err, e⟩, hresume, heq⟩ := hmove
          obtain ⟨rfl, rfl⟩ := Prod.mk.inj heq
          have hnews := noNews_resume hresume .corePrinterThread
          obtain ⟨-, rfl⟩ := resume_spec hresume
          exact ⟨⟨hsound.withEvent id hsound.unclaimed, fun _ hready => by simp at hready⟩,
            Or.inl ⟨rfl, by simp [InputPhase.waiting], ⟨_, rfl⟩, Iff.rfl, hnews⟩⟩
      | _ => simp [inputMove] at hmove
  | ready block =>
      cases m with
      | insert =>
          have hroom := hinv.room block rfl
          simp only [inputMove, hroom, if_true] at hmove
          obtain ⟨rfl, rfl⟩ := Prod.mk.inj (Option.some.inj hmove)
          exact ⟨⟨hsound.insert hroom block, fun _ hready => by simp at hready⟩,
            Or.inr (Or.inl ⟨block, rfl, rfl, hroom, rfl⟩)⟩
      | _ => simp [inputMove] at hmove
  | inserted block =>
      cases m with
      | replan =>
          obtain ⟨rfl, rfl⟩ := Prod.mk.inj (Option.some.inj hmove)
          exact ⟨⟨hsound.replan block, fun _ hready => by simp at hready⟩,
            Or.inr (Or.inr (Or.inl ⟨block, rfl, rfl, rfl⟩))⟩
      | _ => simp [inputMove] at hmove
  | planned =>
      cases m with
      | idleTest param =>
          obtain ⟨rfl, rfl⟩ := Prod.mk.inj (Option.some.inj hmove)
          exact ⟨⟨(idleTest_cases param hsound).1, fun _ hready => by simp at hready⟩,
            Or.inr (Or.inr (Or.inr ⟨param, rfl, rfl, rfl⟩))⟩
      | _ => simp [inputMove] at hmove

/-! ## Steps -/

/-- The steps that a piece adds to the queue on its way to the phase. -/
def InputPhase.landing (phase : InputPhase R) (i : Axis) : ℤ :=
  match phase with
  | .inserted block => block.toCommand.signed i
  | _ => 0

/-- The motion that the caller is about to insert asks for no negative number of
steps. -/
def InputPhase.Nonneg (phase : InputPhase R) : Prop :=
  ∀ block, phase.waiting = some block → ∀ i, 0 ≤ block.steps i

omit [Field R] [LinearOrder R] [FloorRing R] [Sqrtf R] in
theorem Waits.landing {phase phase' : InputPhase R} {sb sb' : StepBlock R}
    (h : Waits phase phase' sb sb') (i : Axis) : phase'.landing i = 0 := by
  have hne : phase'.waiting ≠ none := by
    rw [h.waiting_eq]
    exact h.waiting_ne
  cases phase' with
  | inserted block => simp [InputPhase.waiting] at hne
  | _ => rfl

omit [Field R] [LinearOrder R] [FloorRing R] [Sqrtf R] in
theorem insert_pending {sb : StepBlock R} (h : sb.Sound) (hroom : sb.HasRoom)
    (block : MotionLine R) :
    (stepBlockInsert sb block).pending = sb.pending ++ [block.toCommand] := by
  rw [StepBlock.pending, insert_queue h hroom, List.map_append, StepBlock.pending,
    List.map_singleton]

/-- No piece brings in a negative number of steps. -/
theorem move_tallied {phase phase' : InputPhase R} {sb sb' : StepBlock R} {m : InputMove R}
    (hinv : phase.Inv sb) (htally : sb.Tallied) (hnonneg : phase.Nonneg)
    (hmove : inputMove phase sb m = some (phase', sb')) : sb'.Tallied ∧ phase'.Nonneg := by
  obtain ⟨-, hwaits | ⟨block, rfl, rfl, hroom, rfl⟩ | ⟨block, rfl, rfl, rfl⟩ |
    ⟨param, rfl, rfl, rfl⟩⟩ := inputMove_cases hinv hmove
  · obtain ⟨e, rfl⟩ := hwaits.same
    exact ⟨⟨htally.counted, htally.queued_nonneg⟩,
      fun block hblock => hnonneg block (hwaits.waiting_eq ▸ hblock)⟩
  · refine ⟨⟨htally.counted, ?_⟩, fun _ hblock => by simp [InputPhase.waiting] at hblock⟩
    intro c hc
    rw [insert_pending hinv.sound hroom] at hc
    rcases List.mem_append.mp hc with hc | hc
    · exact htally.queued_nonneg c hc
    · rw [List.mem_singleton.mp hc]
      exact hnonneg block rfl
  · obtain ⟨buf, hbuf⟩ := replan_frame sb block
    refine ⟨⟨?_, ?_⟩, fun _ hblock => by simp [InputPhase.waiting] at hblock⟩
    · rw [hbuf]
      exact htally.counted
    · rw [replan_pending hinv.sound]
      exact htally.queued_nonneg
  · refine ⟨?_, fun _ hblock => by simp [InputPhase.waiting] at hblock⟩
    obtain ⟨-, ⟨-, hsame⟩ | ⟨-, line, rest, hload⟩ | ⟨-, -, hlost⟩⟩ :=
      idleTest_cases param hinv.sound
    · rwa [hsame]
    · exact hload.tallied htally
    · rw [hlost]
      exact ⟨htally.counted, htally.queued_nonneg⟩

/-- An undisturbed block stays undisturbed, and the insertion is the only piece that
changes where its axes are heading. -/
theorem move_undisturbed {phase phase' : InputPhase R} {sb sb' : StepBlock R} {m : InputMove R}
    (hinv : phase.Inv sb) (htally : sb.Tallied) (hundisturbed : sb.Undisturbed)
    (hmove : inputMove phase sb m = some (phase', sb')) :
    sb'.Undisturbed ∧ ∀ i, sb'.projected i = sb.projected i + phase'.landing i := by
  obtain ⟨-, hwaits | ⟨block, rfl, rfl, hroom, rfl⟩ | ⟨block, rfl, rfl, rfl⟩ |
    ⟨param, rfl, rfl, rfl⟩⟩ := inputMove_cases hinv hmove
  · have hlanding := hwaits.landing
    obtain ⟨e, rfl⟩ := hwaits.same
    refine ⟨⟨hundisturbed.complete, hundisturbed.trigger_off, hundisturbed.settled⟩, ?_⟩
    intro i
    rw [hlanding, add_zero]
    rfl
  · refine ⟨⟨hundisturbed.complete, hundisturbed.trigger_off, hundisturbed.settled⟩, ?_⟩
    intro i
    simp only [StepBlock.projected, insert_pending hinv.sound hroom, signedSteps_append,
      signedSteps_cons, signedSteps_nil, add_zero, InputPhase.landing, ← add_assoc]
    rfl
  · have hpending := replan_pending hinv.sound block
    obtain ⟨buf, hbuf⟩ := replan_frame sb block
    have haxis : (stepBlockReplan sb block).stepAxis = sb.stepAxis := by rw [hbuf]
    have htimer : (stepBlockReplan sb block).timer = sb.timer := by rw [hbuf]
    refine ⟨⟨?_, ?_, ?_⟩, fun i => ?_⟩
    · rw [haxis]
      exact hundisturbed.complete
    · rw [haxis]
      exact hundisturbed.trigger_off
    · rw [htimer, stepBlockIsBusy, haxis]
      exact hundisturbed.settled
    · simp [StepBlock.projected, hpending, haxis, InputPhase.landing]
  · obtain ⟨-, ⟨-, hsame⟩ | ⟨hmem, line, rest, hload⟩ | ⟨-, -, hlost⟩⟩ :=
      idleTest_cases param hinv.sound
    · rw [hsame]
      exact ⟨hundisturbed, fun i => (add_zero _).symm⟩
    · -- the timer stood still, so nothing remained of the motion before
      have hsettled := hundisturbed.settled (hinv.sound.idle_off hmem)
      refine ⟨hload.undisturbed htally hundisturbed, ?_⟩
      intro i
      rw [hload.projected (hundisturbed.complete.remaining_eq_zero hsettled i)]
      exact (add_zero _).symm
    · rw [hlost]
      exact ⟨⟨hundisturbed.complete, hundisturbed.trigger_off, hundisturbed.settled⟩,
        fun i => (add_zero _).symm⟩

/-! ## The interrupt -/

omit [Sqrtf R] in
/-- The interrupt keeps the room that a caller has found. -/
theorem InputPhase.Inv.isr {phase : InputPhase R} {sb : StepBlock R} (h : phase.Inv sb)
    (htimer : sb.timer.enabled = true) (param : Param R) (pins : TriggerPins) :
    phase.Inv (stepBlockISR param pins sb) where
  sound := (isr_cases param pins h.sound htimer).1
  room block hready := lt_of_le_of_lt (isr_len_le param pins h.sound htimer) (h.room block hready)

end

end TdPrinter
