import TdPrinter.Foundation.Machine
import TdPrinter.Planning.Feasibility
import TdPrinter.Planning.StepPlanner

/-!
# stepPlanner_inputMotion, call by call

A call is taken in three pieces: the preparation of the motion, its insertion with the
run of the planner, and the test of `STEP_EVENT_BLOCK_IDLE`.  The interrupt can come
between any two of them; the insertion waits for a free slot.

`Planning` also keeps two things that the code does not: the queue length that the
preparation has read, and the junctions passed so far, that is, the pairs of a motion
that was executed and the one loaded behind it.  `Junction.lean` is about these; this
module shows that the queue can be driven at the planned speeds (`queue_drivable`).
-/

namespace TdPrinter

/-- Where the caller of `stepPlanner_inputMotion` is. -/
inductive CallStage
  /-- no call is in progress -/
  | free
  /-- in front of `stepBlock_inputMotion` -/
  | prepared
  /-- between the planner and the test of `STEP_EVENT_BLOCK_IDLE` -/
  | replanned
  deriving DecidableEq

/-- The planner, its queue and the interrupt. -/
structure Planning (R : Type*) where
  planner : StepPlanner R
  stage : CallStage
  /-- `stepBlock.len` as the preparation has read it -/
  lenRead : ℕ
  /-- the motions loaded, each with the one executed before it -/
  junctions : List (MotionLine R × MotionLine R)

inductive PlanAction (R : Type*)
  | prepare (param : Param R) (args : MotionArgs R)
  | insert
  | idleTest (param : Param R)
  | tick (param : Param R) (pins : TriggerPins)

section

variable {R : Type*}

def Planning.sb (s : Planning R) : StepBlock R := s.planner.stepBlock

/-- The same planner over another state of the step block. -/
def Planning.withSb (s : Planning R) (sb : StepBlock R) : Planning R :=
  { s with planner := { s.planner with stepBlock := sb } }

/-- A new state of the step block; if a motion has been loaded behind another one, the
junction is noted. -/
def Planning.pass (s : Planning R) (sb : StepBlock R) : Planning R :=
  { s.withSb sb with
    junctions :=
      if sb.tail ≠ s.sb.tail ∧ s.sb.currentBuffer.isSome then
        s.junctions ++ [(s.sb.currentLine, sb.currentLine)]
      else s.junctions }

end

section

variable {R : Type*} [Field R] [LinearOrder R] [FloorRing R] [Sqrtf R]

/-- `stepBlock_inputMotion` up to the test of `STEP_EVENT_BLOCK_IDLE`, with room in
the buffer. -/
def stepBlockInput (sb : StepBlock R) (block : MotionLine R) : StepBlock R :=
  stepBlockReplan (stepBlockInsert (stepBlockRecvComplete sb false).1 block) block

/-- One step. -/
def Planning.step (s : Planning R) : PlanAction R → Option (Planning R)
  | .prepare param args =>
      if s.stage = .free then
        some { s with
          planner := stepPlannerPrepare param s.planner args
          stage := .prepared
          lenRead := s.sb.len }
      else none
  | .insert =>
      if s.stage = .prepared ∧ s.sb.HasRoom then
        some { s.withSb (stepBlockInput s.sb s.planner.block) with stage := .replanned }
      else none
  | .idleTest param =>
      if s.stage = .replanned then
        some { s.pass (stepBlockIdleTest param s.sb) with stage := .free }
      else none
  | .tick param pins =>
      if s.sb.timer.enabled then some (s.pass (stepBlockISR param pins s.sb)) else none

variable (R) in
/-- Calls of `stepPlanner_inputMotion` and the interrupt as a machine. -/
def planning : Machine (Planning R) (PlanAction R) := ⟨Planning.step⟩

variable (R) in
omit [LinearOrder R] [FloorRing R] [Sqrtf R] in
/-- After `stepPlanner_init`. -/
def Planning.boot : Planning R where
  planner := stepPlannerInit
  stage := .free
  lenRead := 0
  junctions := []

/-! ## What the pieces do to the queue -/

omit [Field R] [LinearOrder R] [FloorRing R] [Sqrtf R] in
/-- The current motion goes on, or the oldest queued one is loaded. -/
inductive Advances (sb sb' : StepBlock R) : Prop
  | stays (tail_eq : sb'.tail = sb.tail) (queue_eq : sb'.queue = sb.queue)
      (line : ∃ rateNominal rateExit, sb'.currentLine =
        { sb.currentLine with trueNominalRate := rateNominal, trueExitRate := rateExit })
  | loads (line : MotionLine R) (rest : List (MotionLine R)) (tail_ne : sb'.tail ≠ sb.tail)
      (queue_before : sb.queue = line :: rest) (queue_after : sb'.queue = rest)
      (currentLine_eq : sb'.currentLine = line)

omit [Sqrtf R] in
theorem isr_advances {sb : StepBlock R} (param : Param R) (pins : TriggerPins) (h : sb.Sound)
    (htimer : sb.timer.enabled = true) : Advances sb (stepBlockISR param pins sb) := by
  have hqueue := execute_queue param pins sb
  obtain ⟨axis, rateNominal, rateExit, counter, rate, elapsed, timer, hexecute, -⟩ :=
    execute_frame param pins sb
  have htail : (stepBlockExecute param pins sb).tail = sb.tail := by rw [hexecute]
  have hline : (stepBlockExecute param pins sb).currentLine =
      { sb.currentLine with trueNominalRate := rateNominal, trueExitRate := rateExit } := by
    rw [hexecute]
  obtain ⟨-, ⟨-, heq⟩ | ⟨-, ⟨line, rest, hload⟩ | hstop⟩⟩ := isr_cases param pins h htimer
  · rw [heq]
    exact .stays htail hqueue ⟨_, _, hline⟩
  · exact .loads line rest (htail ▸ hload.tail_ne) (hqueue ▸ hload.queue_before)
      hload.queue_after hload.currentLine_eq
  · refine .stays (hstop.tail_eq.trans htail) ?_ ⟨_, _, hstop.currentLine_eq.trans hline⟩
    rw [hstop.queue_after, ← hqueue, hstop.queue_before]

omit [Sqrtf R] in
theorem idleTest_advances {sb : StepBlock R} (param : Param R) (h : sb.Sound) :
    Advances sb (stepBlockIdleTest param sb) := by
  obtain ⟨-, ⟨-, heq⟩ | ⟨-, line, rest, hload⟩ | ⟨-, -, heq⟩⟩ := idleTest_cases param h
  · rw [heq]
    exact .stays rfl rfl ⟨_, _, rfl⟩
  · exact .loads line rest hload.tail_ne hload.queue_before hload.queue_after hload.currentLine_eq
  · rw [heq]
    exact .stays rfl rfl ⟨_, _, rfl⟩

omit [Field R] [LinearOrder R] [FloorRing R] [Sqrtf R] in
theorem Advances.queue {sb sb' : StepBlock R} (h : Advances sb sb') :
    sb'.queue = sb.queue ∨ sb'.queue = sb.queue.tail := by
  rcases h with ⟨-, hqueue, -⟩ | ⟨line, rest, -, hbefore, hafter, -⟩
  · exact Or.inl hqueue
  · rw [hbefore, hafter]
    exact Or.inr rfl

theorem input_queue {sb : StepBlock R} (h : sb.Sound) (hroom : sb.HasRoom)
    {block : MotionLine R} (haccel : block.useAccel = true) :
    (stepBlockInput sb block).Sound ∧
      (stepBlockInput sb block).queue = recalculatePlan (sb.queue ++ [block]) ∧
      ∃ e buf head, stepBlockInput sb block =
        { sb with event := e, buffer := buf, head := head, len := sb.len + 1 } := by
  have hrecv := h.recvComplete false
  have hinsert := hrecv.insert hroom block
  have hqueue := insert_queue hrecv hroom block
  refine ⟨hinsert.replan block, ?_, ?_⟩
  · rw [stepBlockInput, stepBlockReplan, if_pos haccel,
      queue_plannerRecalculate (Nat.lt_of_le_of_lt hinsert.len_le (by decide)) hinsert.head_eq,
      hqueue]
    rfl
  · rw [stepBlockInput, stepBlockReplan, if_pos haccel]
    exact ⟨_, _, _, rfl⟩

/-! ## The preparation -/

omit [FloorRing R] [Sqrtf R] in
/-- What the first part of the preparation hands on to the second. -/
theorem prepareStages_frame (param : Param R) (p : StepPlanner R) (args : MotionArgs R) :
    (prepareStages param p args).stepBlock = p.stepBlock ∧
      (prepareStages param p args).prevExitSpeed = p.prevExitSpeed ∧
      (prepareStages param p args).defaultEntrySpeed = args.defaultEntrySpeed ∧
      (prepareStages param p args).defaultExitSpeed = args.defaultExitSpeed ∧
      (prepareStages param p args).block.distance = args.length ∧
      (prepareStages param p args).block.busy = false ∧
      (prepareStages param p args).block.useAccel = args.useAccel := by
  simp only [prepareStages, limitAccelSpeed, limitSpeed]
  split
  · exact ⟨rfl, rfl, rfl, rfl, rfl, rfl, rfl⟩
  · exact ⟨rfl, rfl, rfl, rfl, rfl, rfl, rfl⟩

section

variable [IsStrictOrderedRing R]

omit [FloorRing R] [Sqrtf R] in
theorem jerkScale_le_one (param : Param R) (p : StepPlanner R) : jerkScale param p ≤ 1 := by
  unfold jerkScale
  refine List.foldlRecOn (motive := fun scale : R => scale ≤ 1) axes _ le_rfl
    fun scale hscale i _ => ?_
  dsimp only
  split
  · exact hscale
  · split
    · exact zero_le_one
    · split
      · exact (min_le_left _ _).trans hscale
      · exact hscale

omit [FloorRing R] [Sqrtf R] in
/-- The speed of the junction is at least the default, and no higher than what the
motion before can end with and the motion itself needs, unless these are lower. -/
theorem calcJerkSpeed_le (param : Param R) (p : StepPlanner R) (h : 0 ≤ p.defaultEntrySpeed) :
    calcJerkSpeed param p ≤
      max p.defaultEntrySpeed (min p.prevExitSpeed p.block.nominalSpeed) := by
  rw [calcJerkSpeed]
  refine max_le_max le_rfl ?_
  split
  · exact le_rfl
  · rename_i hfast
    rw [not_or, not_le, not_le] at hfast
    split
    · exact min_le_left _ _
    · have hnonneg : 0 ≤ min p.prevExitSpeed p.block.nominalSpeed :=
        le_min (h.trans hfast.2.le) (h.trans hfast.1.le)
      exact mul_le_of_le_one_right hnonneg (jerkScale_le_one param p)

/-- The speed that a block can end with. -/
def MotionLine.bestExit (b : MotionLine R) : R :=
  min (b.segment.reach b.jerkEntrySpeed) b.nominalSpeed

omit [IsStrictOrderedRing R] [FloorRing R] in
/-- The entry speed is that of the junction, unless the motion could not brake from it to
the default exit speed. -/
theorem prepareJunction_entrySpeed (param : Param R) (q : StepPlanner R) :
    (prepareJunction param q).block.entrySpeed =
      min (speedAfterAccel q.defaultExitSpeed q.block.accelSpeed q.block.distance)
        (prepareJunction param q).block.jerkEntrySpeed := by
  have hdefault : q.defaultEntrySpeed ≤ calcJerkSpeed param q := le_max_left _ _
  have hjerk : (if q.block.nominalSpeed < q.defaultEntrySpeed then q.block.nominalSpeed
      else if min q.block.nominalSpeed (calcJerkSpeed param q) < q.defaultEntrySpeed then
        q.defaultEntrySpeed
      else min q.block.nominalSpeed (calcJerkSpeed param q)) =
        min q.block.nominalSpeed (calcJerkSpeed param q) := by
    split
    · rename_i hslow
      exact (min_eq_left (hslow.le.trans hdefault)).symm
    · rename_i hfast
      exact if_neg (le_min (not_lt.mp hfast) hdefault).not_gt
  simp only [prepareJunction, hjerk]
  exact (min_def_lt _ _).symm

omit [FloorRing R] in
theorem Plannable.le_bestExit [LawfulSqrtf R] {v0 : R} {b : MotionLine R} (h : Plannable v0 b)
    (hv0 : 0 ≤ v0) : v0 ≤ b.bestExit := by
  have hjerk : v0 ≤ b.jerkEntrySpeed := h.floor_le.trans h.entry_le
  exact le_min (hjerk.trans ((h.sound hv0).le_reach _ hjerk)) (hjerk.trans h.jerk_le)

omit [FloorRing R] in
/-- The second part of the preparation makes a block that can join the queue. -/
theorem prepareJunction_joins [LawfulSqrtf R] (param : Param R) {q : StepPlanner R} {v0 : R}
    (hv0 : 0 < v0) {queue : List (MotionLine R)} (hqueue : ∀ b ∈ queue, Plannable v0 b)
    (hexit : ∀ b ∈ queue.getLast?, q.prevExitSpeed = b.bestExit)
    (hentry : q.defaultEntrySpeed = v0) (hleave : q.defaultExitSpeed = v0)
    (haccel : 0 < q.block.accelSpeed) (hdistance : 0 < q.block.distance)
    (hnominal : v0 ≤ q.block.nominalSpeed) (hidle : q.block.busy = false) :
    Joins v0 queue (prepareJunction param q).block := by
  have hentrySpeed := prepareJunction_entrySpeed param q
  have hjerk : v0 ≤ (prepareJunction param q).block.jerkEntrySpeed := by
    refine le_min hnominal ?_
    rw [← hentry]
    exact le_max_left _ _
  refine ⟨⟨haccel, hdistance, ?_, ?_, min_le_left _ _⟩, fun hon => ?_, ?_, fun b hb => ?_, hidle,
    rfl⟩
  · rw [hentrySpeed, hleave]
    exact le_min (self_le_speedAfterAccel hv0.le haccel hdistance) hjerk
  · rw [hentrySpeed]
    exact min_le_right _ _
  · -- the flag is only left set if the nominal speed is reached from a stop
    simp only [prepareJunction, hleave] at hon
    split at hon
    · simp at hon
    · split at hon
      · simp at hon
      · rename_i hle
        exact Or.inl (not_lt.mp hle)
  · rw [hentrySpeed, hleave]
    exact min_le_left _ _
  · have hfloor := (hqueue b (List.mem_of_mem_getLast? hb)).le_bestExit hv0.le
    have hle : (prepareJunction param q).block.jerkEntrySpeed ≤ b.bestExit := by
      refine (min_le_right _ _).trans ((calcJerkSpeed_le param q (hentry ▸ hv0.le)).trans ?_)
      rw [hentry, hexit b hb]
      exact max_le hfloor (min_le_left _ _)
    exact ⟨hle.trans (min_le_left _ _), hle.trans (min_le_right _ _)⟩

end

/-! ## Blocks on their way into the queue -/

omit [Sqrtf R] in
theorem calculateTrapezoid_recalculate (b : MotionLine R) (entryFactor exitFactor : R) :
    (calculateTrapezoidForBlock b entryFactor exitFactor).recalculateFlag =
      b.recalculateFlag := by
  simp only [calculateTrapezoidForBlock]
  split <;> rfl

omit [FloorRing R] in
theorem Joins.retimed {v0 : R} {queue : List (MotionLine R)} {b b' : MotionLine R}
    (h : Joins v0 queue b) (hretimed : Retimed b b')
    (hflag : b'.recalculateFlag = b.recalculateFlag) : Joins v0 queue b' := by
  obtain ⟨_, _, _, _, _, rfl⟩ := hretimed
  obtain ⟨haccel, hdistance, hfloor, hentry, hjerk⟩ := h.plannable
  exact ⟨⟨haccel, hdistance, hfloor, hentry, hjerk⟩, h.flag, h.ends, h.follows, h.idle,
    hflag.trans h.recalculate⟩

omit [FloorRing R] in
/-- The block can still join when a motion has been taken out at the front. -/
theorem Joins.tail {v0 : R} {queue : List (MotionLine R)} {b : MotionLine R}
    (h : Joins v0 queue b) : Joins v0 queue.tail b :=
  ⟨h.plannable, h.flag, h.ends, fun c hc => h.follows c (mem_getLast?_of_tail hc), h.idle,
    h.recalculate⟩

/-- The planner does not change what the newest block can end with. -/
theorem recalculatePlan_bestExit {queue : List (MotionLine R)} {block b : MotionLine R}
    (hb : b ∈ (recalculatePlan (queue ++ [block])).getLast?) : b.bestExit = block.bestExit := by
  obtain ⟨c, hc, hretimed⟩ := getLast?_of_forall₂ (trapezoidPlan_retimed _) hb
  obtain ⟨d, hd, hreplanned⟩ :=
    getLast?_of_forall₂ (reversePlan_forwardPlan_replanned (queue ++ [block])) hc
  rw [List.getLast?_concat] at hd
  obtain rfl := Option.some.inj hd
  obtain ⟨_, _, _, _, _, rfl⟩ := hretimed
  obtain ⟨_, _, _, rfl, -⟩ := hreplanned
  rfl

/-! ## Runs -/

/-- The conditions on a call: the motion has a length and is planned with ramps, the
default speeds are `v0`, and after the limits are applied it may accelerate and its
speed is at least `v0`. -/
def Planning.Admissible (v0 : R) (s : Planning R) : PlanAction R → Prop
  | .prepare param args =>
      args.useAccel = true ∧ 0 < args.length ∧ args.defaultEntrySpeed = v0 ∧
        args.defaultExitSpeed = v0 ∧
        0 < (prepareStages param s.planner args).block.accelSpeed ∧
        v0 ≤ (prepareStages param s.planner args).block.nominalSpeed
  | _ => True

/-- The invariant of runs with admissible calls. -/
structure Planning.Inv (v0 : R) (s : Planning R) : Prop where
  sound : s.sb.Sound
  planned : Planned v0 s.sb.queue
  exit : s.stage ≠ .prepared → ∀ b ∈ s.sb.queue.getLast?,
    s.planner.prevExitSpeed = b.bestExit
  joins : s.stage = .prepared → Joins v0 s.sb.queue s.planner.block ∧
    s.planner.block.useAccel = true ∧ s.planner.prevExitSpeed = s.planner.block.bestExit

theorem Planning.boot_inv (v0 : R) : (Planning.boot R).Inv v0 where
  sound := init_sound
  planned := .nil v0
  exit _ b hb := by simp [Planning.boot, Planning.sb, stepPlannerInit] at hb
  joins h := by simp [Planning.boot] at h

/-- A motion taken out of the queue leaves the invariant. -/
theorem Planning.Inv.pass {v0 : R} {s : Planning R} (h : s.Inv v0) {sb : StepBlock R}
    (hsound : sb.Sound) (hqueue : sb.queue = s.sb.queue ∨ sb.queue = s.sb.queue.tail) :
    (s.pass sb).Inv v0 := by
  have hlast : ∀ b ∈ sb.queue.getLast?, b ∈ s.sb.queue.getLast? := by
    rcases hqueue with hqueue | hqueue
    · rw [hqueue]
      exact fun _ => id
    · rw [hqueue]
      exact fun _ => mem_getLast?_of_tail
  refine ⟨hsound, ?_, fun hstage b hb => h.exit hstage b (hlast b hb), fun hstage => ?_⟩
  · show Planned v0 sb.queue
    rcases hqueue with hqueue | hqueue
    · rw [hqueue]
      exact h.planned
    · rw [hqueue]
      exact h.planned.tail
  · obtain ⟨hjoins, haccel, hexit⟩ := h.joins hstage
    refine ⟨?_, haccel, hexit⟩
    show Joins v0 sb.queue s.planner.block
    rcases hqueue with hqueue | hqueue
    · rw [hqueue]
      exact hjoins
    · rw [hqueue]
      exact hjoins.tail

section

variable [IsStrictOrderedRing R] [LawfulSqrtf R] {v0 : R}

/-- An admissible preparation makes a block that can join the queue. -/
theorem Planning.Inv.prepare (hv0 : 0 < v0) {s : Planning R} (h : s.Inv v0)
    (hfree : s.stage = .free) (param : Param R) {args : MotionArgs R}
    (hargs : s.Admissible v0 (.prepare param args)) : Planning.Inv v0 { s with
      planner := stepPlannerPrepare param s.planner args
      stage := .prepared
      lenRead := s.sb.len } := by
  obtain ⟨haccel, hlength, hentry, hleave, haccelSpeed, hnominal⟩ := hargs
  have hframe := prepareStages_frame param s.planner args
  obtain ⟨-, hprev, hentry', hleave', hdistance, hidle, huse⟩ := hframe
  have hexit := h.exit (by simp [hfree])
  have hjoins := prepareJunction_joins param hv0 h.planned.plannable
    (fun b hb => hprev.trans (hexit b hb)) (hentry'.trans hentry) (hleave'.trans hleave) haccelSpeed
    (hdistance ▸ hlength) hnominal hidle
  have hretimed :=
    prepareTrapezoid_retimed (prepareJunction param (prepareStages param s.planner args))
  have hblock : (stepPlannerPrepare param s.planner args).block =
    (prepareTrapezoid (prepareJunction param (prepareStages param s.planner args))).block := rfl
  have hqueue : (stepPlannerPrepare param s.planner args).stepBlock = s.sb :=
    prepare_stepBlock param s.planner args
  refine ⟨?_, ?_, fun hstage => absurd rfl hstage, fun _ => ⟨?_, ?_, ?_⟩⟩
  · exact hqueue ▸ h.sound
  · exact hqueue ▸ h.planned
  · show Joins v0 (stepPlannerPrepare param s.planner args).stepBlock.queue _
    rw [hqueue]
    exact hjoins.retimed hretimed (calculateTrapezoid_recalculate _ _ _)
  · obtain ⟨_, _, _, _, _, hretimed⟩ := hretimed
    show (stepPlannerPrepare param s.planner args).block.useAccel = true
    rw [hblock, hretimed]
    exact huse.trans haccel
  · obtain ⟨_, _, _, _, _, hretimed⟩ := hretimed
    show _ = (stepPlannerPrepare param s.planner args).block.bestExit
    rw [hblock, hretimed]
    rfl

/-- Every step of a run with admissible calls keeps the invariant. -/
theorem Planning.Inv.step (hv0 : 0 < v0) {s t : Planning R} {a : PlanAction R} (h : s.Inv v0)
    (hstep : s.step a = some t) (hadmissible : s.Admissible v0 a) : t.Inv v0 := by
  cases a with
  | prepare param args =>
      obtain ⟨hfree, rfl⟩ := Option.ite_some_none_eq_some.mp hstep
      exact h.prepare hv0 hfree param hadmissible
  | insert =>
      obtain ⟨hready, rfl⟩ := Option.ite_some_none_eq_some.mp hstep
      obtain ⟨hjoins, haccel, hexit⟩ := h.joins hready.1
      obtain ⟨hsound, hqueue, -⟩ := input_queue h.sound hready.2 haccel
      refine ⟨hsound, ?_, fun _ b hb => ?_, fun hstage => by simp at hstage⟩
      · show Planned v0 (stepBlockInput s.sb s.planner.block).queue
        rw [hqueue]
        exact recalculatePlan_planned hv0.le h.planned hjoins
      · change b ∈ (stepBlockInput s.sb s.planner.block).queue.getLast? at hb
        rw [hqueue] at hb
        exact hexit.trans (recalculatePlan_bestExit hb).symm
  | idleTest param =>
      obtain ⟨hstage, rfl⟩ := Option.ite_some_none_eq_some.mp hstep
      have hpass := h.pass (idleTest_cases param h.sound).1 (idleTest_advances param h.sound).queue
      exact ⟨hpass.sound, hpass.planned, fun _ => hpass.exit (by simp [Planning.pass,
        Planning.withSb, hstage]), fun hprepared => by simp at hprepared⟩
  | tick param pins =>
      obtain ⟨htimer, rfl⟩ := Option.ite_some_none_eq_some.mp hstep
      exact h.pass (isr_cases param pins h.sound htimer).1
        (isr_advances param pins h.sound htimer).queue

/-! ## The queue can be driven -/

/-- The queue can be driven at the planned speeds, from `v0` up: the entry speeds are
in bounds, each block can change from its entry speed to that of the next one, the
newest can brake to `v0`, and the stored trapezoids are those of the speeds. -/
structure Drivable (v0 : R) (queue : List (MotionLine R)) : Prop where
  speeds : ∀ b ∈ queue, v0 ≤ b.entrySpeed ∧ b.entrySpeed ≤ b.jerkEntrySpeed ∧
    b.jerkEntrySpeed ≤ b.nominalSpeed
  junctions : queue.IsChain fun b c =>
    |c.entrySpeed ^ 2 - b.entrySpeed ^ 2| ≤ 2 * b.accelSpeed * b.distance
  ends : ∀ b ∈ queue.getLast?, b.entrySpeed ^ 2 ≤ v0 ^ 2 + 2 * b.accelSpeed * b.distance
  timed : Timed queue

theorem Planned.drivable (hv0 : 0 < v0) {queue : List (MotionLine R)} (h : Planned v0 queue) :
    Drivable v0 queue where
  speeds b hb :=
    ⟨(h.plannable b hb).floor_le, (h.plannable b hb).entry_le, (h.plannable b hb).jerk_le⟩
  junctions := by
    have hchain := isChain_and ((List.isChain_map _).mp h.feasible.brakes)
      ((List.isChain_map _).mp h.feasible.climbs)
    refine hchain.imp_of_mem_imp ?_
    intro b c hb hc hbc
    have hb' := h.plannable b hb
    have hc' := h.plannable c hc
    have hbrakes := (le_speedAfterAccel_iff hb'.accelSpeed_pos hb'.distance_pos
      (hv0.le.trans hb'.floor_le)).mp hbc.1
    have hclimbs := (le_speedAfterAccel_iff hb'.accelSpeed_pos hb'.distance_pos
      (hv0.le.trans hc'.floor_le)).mp hbc.2
    change b.entrySpeed ^ 2 ≤ c.entrySpeed ^ 2 + 2 * b.accelSpeed * b.distance at hbrakes
    change c.entrySpeed ^ 2 ≤ b.entrySpeed ^ 2 + 2 * b.accelSpeed * b.distance at hclimbs
    rw [abs_le]
    constructor <;> linarith
  ends b hb := by
    have hb' := h.plannable b (List.mem_of_mem_getLast? hb)
    have hends := h.feasible.ends b.segment (by
      rw [List.getLast?_map, Option.mem_def, Option.map_eq_some_iff]
      exact ⟨b, hb, rfl⟩)
    exact (le_speedAfterAccel_iff hb'.accelSpeed_pos hb'.distance_pos
      (hv0.le.trans hb'.floor_le)).mp hends
  timed := h.timed

end

end

/-! ## Exact arithmetic -/

/-- In every run of admissible calls, with any interrupts in between, the queue can be
driven at the planned speeds, after every call of `planner_recalculate` and until the
next one. -/
theorem queue_drivable {v0 : ℝ} (hv0 : 0 < v0) (as : List (PlanAction ℝ))
    (hadmissible : (planning ℝ).AllSteps (Planning.Admissible v0) (.boot ℝ) as) :
    (planning ℝ).Always (fun s => Drivable v0 s.sb.queue) (.boot ℝ) as :=
  Machine.always_of_allSteps (J := Planning.Inv v0) (fun _ h => h.planned.drivable hv0)
    (fun _ _ _ h hstep hargs => h.step hv0 hstep hargs) (Planning.boot_inv v0) hadmissible

/-- Parameters for a run on fixed inputs. -/
noncomputable def realParam : Param ℝ where
  positionOffset := fun _ => 0
  mm2step := fun _ => 100
  microStep := fun _ => 1
  maxSpeed := fun _ => 100
  maxSpeedDelta := fun _ => 10
  defaultEntrySpeed := fun _ => 1
  defaultAccelSpeed := fun _ => 40
  maxAccelSpeed := fun _ => 1000
  advanceK := 0
  advanceDeprime := 0

noncomputable def diagonal : MotionArgs ℝ where
  steps := fun _ => 100
  dist := fun _ => 1
  speed := 10
  length := 1
  useAccel := true
  defaultEntrySpeed := 1
  defaultExitSpeed := 1

theorem diagonal_prepared (p : StepPlanner ℝ) :
    (prepareStages realParam p diagonal).block.accelSpeed = 40 ∧
      (prepareStages realParam p diagonal).block.nominalSpeed = 10 := by
  constructor <;>
    norm_num [prepareStages, realParam, diagonal, limitAccelSpeed, limitSpeed, axes, stepperNum,
      List.finRange_succ, applyMicroStep, fillBlockSteps, slowdown, slowdownMinSegTime]

theorem diagonal_admissible (s : Planning ℝ) : s.Admissible 1 (.prepare realParam diagonal) := by
  refine ⟨rfl, one_pos, rfl, rfl, ?_, ?_⟩
  · rw [(diagonal_prepared s.planner).1]
    norm_num
  · rw [(diagonal_prepared s.planner).2]
    norm_num

/-- Three calls, so that two motions are queued behind the one that is executed. -/
theorem queue_drivable_diagonal : (planning ℝ).Always (fun s => Drivable 1 s.sb.queue) (.boot ℝ)
    ([.prepare realParam diagonal, .insert, .idleTest realParam] ++
      [.tick realParam ⟨fun _ => false, fun _ => false⟩] ++
      [.prepare realParam diagonal, .insert, .idleTest realParam] ++
      [.prepare realParam diagonal, .insert, .idleTest realParam] ++
      List.replicate 150 (.tick realParam ⟨fun _ => false, fun _ => false⟩)) := by
  refine queue_drivable one_pos _ (Machine.allSteps_of_forall (fun a ha s => ?_) _)
  cases a with
  | prepare param args =>
      simp only [List.mem_append, List.mem_cons, List.not_mem_nil, List.mem_replicate, or_false,
        PlanAction.prepare.injEq, reduceCtorEq, and_false, or_self] at ha
      obtain ⟨rfl, rfl⟩ := ha
      exact diagonal_admissible s
  | insert => trivial
  | idleTest param => trivial
  | tick param pins => trivial

end TdPrinter
