import TdPrinter.Motion.Pipeline
import TdPrinter.Planning.Calls

/-!
# From one block to the next

A block that is loaded keeps the trapezoid it has at that moment, and with it the speed
at its end.  The block behind it is loaded with its own entry speed.  If both were in
the queue when the planner ran last, the two speeds agree; if the second one is
inserted later, it finds the first one planned to end with `MINIMUM_PLANNER_SPEED`.

`calcJerkSpeed` knows about this: with an empty queue the entry speed is the default
one.  But it reads the queue length when the motion is prepared, and the interrupt can
take the last queued motion out before the insertion.  `junctions_continuous` shows
that nothing else goes wrong; `emptied_jumps` is a run in which this does.
-/

namespace TdPrinter

section

variable {R : Type*} [Field R] [LinearOrder R]

/-- The speed in mm/s at the end of the stored trapezoid. -/
def MotionLine.exitSpeed (b : MotionLine R) : R := b.exitRate * (b.distance / (b.masterStep : R))

/-- No junction was passed with a jump up in speed, beyond the default entry speed
`v0`. -/
def Planning.Continuous (v0 : R) (s : Planning R) : Prop :=
  ∀ j ∈ s.junctions, j.2.entrySpeed ≤ max j.1.exitSpeed v0

/-- Calls with ramps, positive parameters and the default entry speed `v0`. -/
def Planning.Positive (v0 : R) (_s : Planning R) : PlanAction R → Prop
  | .prepare param args =>
      args.useAccel = true ∧ 0 < args.length ∧ 0 < args.speed ∧ args.defaultEntrySpeed = v0 ∧
        (∃ i, args.steps i ≠ 0) ∧ (∀ i, 0 < param.microStep i) ∧ ∀ i, 0 < param.maxSpeed i
  | _ => True

/-- The queue has not run empty between the preparation and the insertion. -/
def Planning.Unemptied (s : Planning R) : PlanAction R → Prop
  | .insert => ¬ (0 < s.lenRead ∧ s.sb.len = 0)
  | _ => True

def Planning.Steady (v0 : R) (s : Planning R) (a : PlanAction R) : Prop :=
  s.Positive v0 a ∧ s.Unemptied a

instance (v0 : R) (s : Planning R) (a : PlanAction R) : Decidable (s.Positive v0 a) := by
  cases a with
  | prepare param args => exact inferInstanceAs (Decidable (_ ∧ _))
  | _ => exact isTrue trivial

instance (s : Planning R) (a : PlanAction R) : Decidable (s.Unemptied a) := by
  cases a with
  | insert => exact inferInstanceAs (Decidable (¬ _))
  | _ => exact isTrue trivial

instance (v0 : R) (s : Planning R) (a : PlanAction R) : Decidable (s.Steady v0 a) :=
  inferInstanceAs (Decidable (_ ∧ _))

/-! ## Speeds and rates -/

/-- The rates of a block are its speeds, in steps. -/
structure Scaled (b : MotionLine R) : Prop where
  nominalSpeed_pos : 0 < b.nominalSpeed
  distance_pos : 0 < b.distance
  masterStep_pos : 0 < b.masterStep
  nominalRate_eq : b.nominalRate * b.distance = b.nominalSpeed * b.masterStep

theorem Scaled.replanned {b b' : MotionLine R} (h : Scaled b) (hreplanned : Replanned b b') :
    Scaled b' := by
  obtain ⟨_, _, _, rfl, -⟩ := hreplanned
  exact ⟨h.nominalSpeed_pos, h.distance_pos, h.masterStep_pos, h.nominalRate_eq⟩

theorem Scaled.retimed {b b' : MotionLine R} (h : Scaled b) (hretimed : Retimed b b') :
    Scaled b' := by
  obtain ⟨_, _, _, _, _, rfl⟩ := hretimed
  exact ⟨h.nominalSpeed_pos, h.distance_pos, h.masterStep_pos, h.nominalRate_eq⟩

/-- A trapezoid that is up to date ends at least with the speed it was computed for. -/
theorem Stored.le_exitSpeed [IsStrictOrderedRing R] [FloorRing R] {b : MotionLine R} {next : R}
    (h : Stored b next) (hscaled : Scaled b) (hidle : b.busy = false) : next ≤ b.exitSpeed := by
  have hmaster : (0 : R) < b.masterStep := Int.cast_pos.mpr hscaled.masterStep_pos
  have hexit : b.nominalRate * (next / b.nominalSpeed) ≤ b.exitRate := by
    rw [h.exitRate_eq, (calculateTrapezoid_rates hidle _ _).2]
    exact le_max_left _ _
  have hnominal := hscaled.nominalSpeed_pos
  calc next = b.nominalRate * (next / b.nominalSpeed) * (b.distance / (b.masterStep : R)) := by
        rw [mul_comm b.nominalRate, mul_assoc, ← mul_div_assoc, hscaled.nominalRate_eq]
        field_simp
    _ ≤ b.exitSpeed := mul_le_mul_of_nonneg_right hexit
        (div_nonneg hscaled.distance_pos.le hmaster.le)

/-! ## The preparation -/

omit [Field R] [LinearOrder R] in
/-- The axis with the most steps determines `masterStep`. -/
theorem le_masterStep (line : MotionLine R) (steps : Axis → ℤ) (i : Axis) :
    |steps i| ≤ (fillBlockSteps line steps).masterStep := by
  have hfold : ∀ (l : List Axis) (m : ℤ),
      m ≤ l.foldl (fun m i => if |steps i| > m then |steps i| else m) m ∧
        ∀ i ∈ l, |steps i| ≤ l.foldl (fun m i => if |steps i| > m then |steps i| else m) m := by
    intro l
    induction l with
    | nil => exact fun m => ⟨le_rfl, by simp⟩
    | cons j l ih =>
        intro m
        obtain ⟨hle, hall⟩ := ih (if |steps j| > m then |steps j| else m)
        have hm : m ≤ if |steps j| > m then |steps j| else m := by split <;> omega
        have hj : |steps j| ≤ if |steps j| > m then |steps j| else m := by split <;> omega
        refine ⟨hm.trans hle, ?_⟩
        intro i hi
        rcases List.mem_cons.mp hi with rfl | hi
        · exact hj.trans hle
        · exact hall i hi
  exact (hfold axes 0).2 i (List.mem_finRange i)

section

variable [IsStrictOrderedRing R]

/-- The time of a motion is positive, and its speed covers the length in that time. -/
theorem slowdown_spec (len : ℕ) {length speed : R} (hlength : 0 < length) (hspeed : 0 < speed) :
    0 < (slowdown len length speed).1 ∧ 0 < (slowdown len length speed).2 ∧
      (slowdown len length speed).2 * (slowdown len length speed).1 = length := by
  have hdt : 0 < length / speed := div_pos hlength hspeed
  simp only [slowdown]
  split
  · rename_i hshort
    have hscale : (0 : R) ≤ if len > 0 then 1 / (len : R) else 1 := by
      split
      · positivity
      · exact zero_le_one
    have hdt' : 0 < length / speed + (slowdownMinSegTime - length / speed) *
        (if len > 0 then 1 / (len : R) else 1) :=
      add_pos_of_pos_of_nonneg hdt (mul_nonneg (sub_nonneg.mpr hshort.2.le) hscale)
    exact ⟨hdt', div_pos hlength hdt', div_mul_cancel₀ _ hdt'.ne'⟩
  · exact ⟨hdt, hspeed, mul_div_cancel₀ _ hspeed.ne'⟩

/-- The limit of the speed scales speed and rate alike. -/
theorem limitSpeed_scaled (param : Param R) {p : StepPlanner R} (h : Scaled p.block)
    (hmax : ∀ i, 0 < param.maxSpeed i) : Scaled (limitSpeed param p).block := by
  have hfactor : 0 < axes.foldl
      (fun f i =>
        if |p.curSpeed i| > param.maxSpeed i then min f (param.maxSpeed i / |p.curSpeed i|)
        else f) (1 : R) := by
    refine List.foldlRecOn (motive := fun f : R => 0 < f) axes _ zero_lt_one fun f hf i _ => ?_
    split
    · rename_i hfast
      exact lt_min hf (div_pos (hmax i) ((hmax i).trans hfast))
    · exact hf
  simp only [limitSpeed]
  split
  · refine ⟨mul_pos h.nominalSpeed_pos hfactor, h.distance_pos, h.masterStep_pos, ?_⟩
    have hrate := h.nominalRate_eq
    simp only at hrate ⊢
    rw [mul_right_comm, hrate, mul_right_comm]
  · exact h

variable [FloorRing R] [Sqrtf R]

omit [FloorRing R] [Sqrtf R] in
theorem prepareStages_scaled (param : Param R) (p : StepPlanner R) {args : MotionArgs R}
    (hlength : 0 < args.length) (hspeed : 0 < args.speed) (hsteps : ∃ i, args.steps i ≠ 0)
    (hmicro : ∀ i, 0 < param.microStep i) (hmax : ∀ i, 0 < param.maxSpeed i) :
    Scaled (prepareStages param p args).block := by
  obtain ⟨hdt, hnominal, hcovers⟩ := slowdown_spec p.stepBlock.len hlength hspeed
  have hmaster : ∀ line : MotionLine R,
      0 < (fillBlockSteps line (applyMicroStep param args.steps)).masterStep := by
    intro line
    obtain ⟨i, hi⟩ := hsteps
    refine lt_of_lt_of_le ?_ (le_masterStep line _ i)
    exact abs_pos.mpr (mul_ne_zero hi (hmicro i).ne')
  simp only [prepareStages, limitAccelSpeed]
  generalize slowdown p.stepBlock.len args.length args.speed = timed at hdt hnominal hcovers ⊢
  generalize hq : limitSpeed param _ = q
  have hscaled : Scaled q.block := by
    rw [← hq]
    refine limitSpeed_scaled param ⟨hnominal, hlength, hmaster p.block, ?_⟩ hmax
    dsimp only
    rw [div_mul_eq_mul_div, div_eq_iff hdt.ne', ← hcovers]
    ring
  exact ⟨hscaled.nominalSpeed_pos, hscaled.distance_pos, hscaled.masterStep_pos,
    hscaled.nominalRate_eq⟩

end

section

variable [FloorRing R] [Sqrtf R]

omit [FloorRing R] [Sqrtf R] in
/-- With an empty queue the speed of the junction is the default one. -/
theorem calcJerkSpeed_of_empty (param : Param R) {p : StepPlanner R} (h : p.stepBlock.len = 0) :
    calcJerkSpeed param p = p.defaultEntrySpeed := by
  rw [calcJerkSpeed]
  refine max_eq_left ?_
  split
  · rename_i hslow
    rcases hslow with hslow | hslow
    · exact (min_le_right _ _).trans hslow
    · exact (min_le_left _ _).trans hslow
  · exact min_le_right _ _

omit [FloorRing R] in
theorem prepareJunction_entry (param : Param R) {p : StepPlanner R} (h : p.stepBlock.len = 0) :
    (prepareJunction param p).block.entrySpeed ≤ p.defaultEntrySpeed := by
  simp only [prepareJunction, calcJerkSpeed_of_empty param h]
  have hentry : (if p.block.nominalSpeed < p.defaultEntrySpeed then p.block.nominalSpeed
      else if min p.block.nominalSpeed p.defaultEntrySpeed < p.defaultEntrySpeed then
        p.defaultEntrySpeed
      else min p.block.nominalSpeed p.defaultEntrySpeed) ≤ p.defaultEntrySpeed := by
    split
    · rename_i hslow
      exact hslow.le
    · split
      · exact le_rfl
      · exact min_le_right _ _
  rw [← min_def_lt]
  exact (min_le_right _ _).trans hentry

/-! ## The front of the queue -/

/-- The planner does not touch the entry speed of the oldest motion. -/
theorem recalculatePlan_head {a b : MotionLine R} {l : List (MotionLine R)}
    (hb : b ∈ (recalculatePlan (a :: l)).head?) : b.entrySpeed = a.entrySpeed := by
  have hreverse : ∃ m, reversePlan (a :: l) = a :: m := by
    unfold reversePlan
    split
    · rename_i heq
      obtain ⟨rfl, -⟩ := List.cons.inj heq
      exact ⟨_, rfl⟩
    · exact ⟨l, rfl⟩
  have hforward : ∀ m : List (MotionLine R), ∃ n, forwardFrom a m = a :: n := by
    intro m
    cases m <;> exact ⟨_, rfl⟩
  obtain ⟨m, hm⟩ := hreverse
  obtain ⟨n, hn⟩ := hforward m
  rw [recalculatePlan, hm, forwardPlan, hn] at hb
  obtain ⟨c, r, ⟨_, _, _, _, _, rfl⟩, -, hr⟩ :=
    List.forall₂_cons_left_iff.mp (trapezoidPlan_retimed (a :: n))
  rw [hr] at hb
  obtain rfl := Option.some.inj hb
  rfl

theorem recalculatePlan_scaled {queue : List (MotionLine R)} (h : ∀ b ∈ queue, Scaled b) :
    ∀ b ∈ recalculatePlan queue, Scaled b :=
  forall_of_forall₂ (trapezoidPlan_retimed _)
    (forall_of_forall₂ (reversePlan_forwardPlan_replanned queue) h fun _ _ hab ha =>
      ha.replanned hab)
    fun _ _ hab ha => ha.retimed hab

/-! ## The invariant -/

/-- The invariant of runs with steady calls: the trapezoids are up to date, and the
oldest queued motion fits to the current one, whether that is still being executed or
not. -/
structure Planning.Smooth (v0 : R) (s : Planning R) : Prop where
  sound : s.sb.Sound
  timed : Timed s.sb.queue
  scaled : ∀ b ∈ s.sb.queue, Scaled b
  front : ∀ b ∈ s.sb.queue.head?, b.entrySpeed ≤ max s.sb.currentLine.exitSpeed v0
  passed : s.Continuous v0
  block_scaled : s.stage = .prepared → Scaled s.planner.block
  block_flags : s.stage = .prepared → s.planner.block.busy = false ∧
    s.planner.block.recalculateFlag = true ∧ s.planner.block.useAccel = true
  len_le : s.stage = .prepared → s.sb.len ≤ s.lenRead
  block_slow : s.stage = .prepared → s.lenRead = 0 → s.planner.block.entrySpeed ≤ v0

theorem Planning.boot_smooth (v0 : R) : (Planning.boot R).Smooth v0 where
  sound := init_sound
  timed := (Planned.nil v0).timed
  scaled b hb := by simp [Planning.boot, Planning.sb, stepPlannerInit] at hb
  front b hb := by simp [Planning.boot, Planning.sb, stepPlannerInit] at hb
  passed j hj := by simp [Planning.boot] at hj
  block_scaled h := by simp [Planning.boot] at h
  block_flags h := by simp [Planning.boot] at h
  len_le h := by simp [Planning.boot] at h
  block_slow h := by simp [Planning.boot] at h

variable {v0 : R}

omit [Sqrtf R] in
theorem Planning.Smooth.still {s : Planning R} (h : s.Smooth v0) {sb : StepBlock R}
    (hsound : sb.Sound) (hqueue : sb.queue = s.sb.queue) (htail : sb.tail = s.sb.tail)
    (hexit : sb.currentLine.exitSpeed = s.sb.currentLine.exitSpeed) : (s.pass sb).Smooth v0 where
  sound := hsound
  timed := hqueue ▸ h.timed
  scaled := hqueue ▸ h.scaled
  front b hb := by
    show b.entrySpeed ≤ max sb.currentLine.exitSpeed v0
    rw [hexit]
    exact h.front b (hqueue ▸ hb)
  passed j hj := by
    simp only [Planning.pass, htail, ne_eq, not_true_eq_false, false_and, if_false] at hj
    exact h.passed j hj
  block_scaled := h.block_scaled
  block_flags := h.block_flags
  len_le hstage := by
    show sb.len ≤ s.lenRead
    rw [sb.len_eq_length, hqueue, ← s.sb.len_eq_length]
    exact h.len_le hstage
  block_slow := h.block_slow

omit [Sqrtf R] in
/-- The oldest motion is loaded: the next one fits to it, because its trapezoid is up
to date. -/
theorem Planning.Smooth.loads [IsStrictOrderedRing R] {s : Planning R} (h : s.Smooth v0)
    {sb : StepBlock R} (hsound : sb.Sound) {line : MotionLine R} {rest : List (MotionLine R)}
    (hbefore : s.sb.queue = line :: rest) (hafter : sb.queue = rest)
    (hline : sb.currentLine = line) : (s.pass sb).Smooth v0 where
  sound := hsound
  timed := by
    have htail := h.timed.tail
    rw [hbefore] at htail
    exact hafter ▸ htail
  scaled b hb := h.scaled b (by
    rw [hbefore]
    exact List.mem_cons_of_mem _ (hafter ▸ hb))
  front b hb := by
    change b ∈ sb.queue.head? at hb
    show b.entrySpeed ≤ max sb.currentLine.exitSpeed v0
    obtain ⟨tail, htail⟩ := List.head?_eq_some_iff.mp hb
    have hstored := h.timed.stored
    rw [hbefore, ← hafter, htail, List.isChain_cons_cons] at hstored
    have hmem : line ∈ s.sb.queue := by
      rw [hbefore]
      exact List.mem_cons_self
    rw [hline]
    exact (hstored.1.le_exitSpeed (h.scaled line hmem) (h.timed.idle line hmem)).trans
      (le_max_left _ _)
  passed j hj := by
    simp only [Planning.pass] at hj
    split at hj
    · rcases List.mem_append.mp hj with hj | hj
      · exact h.passed j hj
      · rw [List.mem_singleton.mp hj, hline]
        exact h.front line (by rw [hbefore]; rfl)
    · exact h.passed j hj
  block_scaled := h.block_scaled
  block_flags := h.block_flags
  len_le hstage := by
    refine le_trans ?_ (h.len_le hstage)
    show sb.len ≤ _
    rw [sb.len_eq_length, s.sb.len_eq_length, hafter, hbefore]
    exact Nat.le_succ _
  block_slow := h.block_slow

omit [Sqrtf R] in
theorem Planning.Smooth.free {s : Planning R} (h : s.Smooth v0) :
    Planning.Smooth v0 { s with stage := .free } where
  sound := h.sound
  timed := h.timed
  scaled := h.scaled
  front := h.front
  passed := h.passed
  block_scaled hstage := by simp at hstage
  block_flags hstage := by simp at hstage
  len_le hstage := by simp at hstage
  block_slow hstage := by simp at hstage

section

variable [IsStrictOrderedRing R]

theorem Planning.Smooth.prepare {s : Planning R} (h : s.Smooth v0) (param : Param R)
    {args : MotionArgs R} (hargs : s.Positive v0 (.prepare param args)) :
    Planning.Smooth v0 { s with
      planner := stepPlannerPrepare param s.planner args
      stage := .prepared
      lenRead := s.sb.len } := by
  obtain ⟨haccel, hlength, hspeed, hentry, hsteps, hmicro, hmax⟩ := hargs
  obtain ⟨hstepBlock, -, hentry', -, -, hidle, huse⟩ := prepareStages_frame param s.planner args
  have hscaled := prepareStages_scaled param s.planner hlength hspeed hsteps hmicro hmax
  have hslow := prepareJunction_entry param (p := prepareStages param s.planner args)
  have hretimed :=
    prepareTrapezoid_retimed (prepareJunction param (prepareStages param s.planner args))
  have hqueue : (stepPlannerPrepare param s.planner args).stepBlock = s.sb :=
    prepare_stepBlock param s.planner args
  have hflag : (stepPlannerPrepare param s.planner args).block.recalculateFlag = true :=
    calculateTrapezoid_recalculate _ _ _
  have hblock : (stepPlannerPrepare param s.planner args).block =
    (prepareTrapezoid (prepareJunction param (prepareStages param s.planner args))).block := rfl
  obtain ⟨_, _, _, _, _, hretimed⟩ := hretimed
  constructor
  · exact hqueue ▸ h.sound
  · exact hqueue ▸ h.timed
  · exact hqueue ▸ h.scaled
  · exact hqueue ▸ h.front
  · exact h.passed
  · intro _
    show Scaled (stepPlannerPrepare param s.planner args).block
    rw [hblock, hretimed]
    exact ⟨hscaled.nominalSpeed_pos, hscaled.distance_pos, hscaled.masterStep_pos,
      hscaled.nominalRate_eq⟩
  · intro _
    refine ⟨?_, hflag, ?_⟩
    · show (stepPlannerPrepare param s.planner args).block.busy = false
      rw [hblock, hretimed]
      exact hidle
    · show (stepPlannerPrepare param s.planner args).block.useAccel = true
      rw [hblock, hretimed]
      exact huse.trans haccel
  · exact fun _ => (congrArg StepBlock.len hqueue).le
  · intro _ hlen
    show (stepPlannerPrepare param s.planner args).block.entrySpeed ≤ v0
    rw [hblock, hretimed, ← hentry, ← hentry']
    exact hslow (hstepBlock ▸ hlen)

omit [IsStrictOrderedRing R] in
/-- The insertion puts a motion behind others that the planner then fits to it, or
into a queue that was empty when the motion was prepared. -/
theorem Planning.Smooth.insert {s : Planning R} (h : s.Smooth v0) (hstage : s.stage = .prepared)
    (hroom : s.sb.HasRoom) (hunemptied : s.Unemptied .insert) :
    Planning.Smooth v0 { s.withSb (stepBlockInput s.sb s.planner.block) with
      stage := .replanned } := by
  obtain ⟨hidle, hflag, haccel⟩ := h.block_flags hstage
  obtain ⟨hsound, hqueue, _, _, _, hframe⟩ := input_queue h.sound hroom haccel
  have hline : (stepBlockInput s.sb s.planner.block).currentLine = s.sb.currentLine := by
    rw [hframe]
  constructor
  · exact hsound
  · show Timed (stepBlockInput s.sb s.planner.block).queue
    rw [hqueue]
    exact recalculatePlan_timed h.timed hidle hflag
  · show ∀ b ∈ (stepBlockInput s.sb s.planner.block).queue, Scaled b
    rw [hqueue]
    refine recalculatePlan_scaled ?_
    intro b hb
    rcases List.mem_append.mp hb with hb | hb
    · exact h.scaled b hb
    · rw [List.mem_singleton.mp hb]
      exact h.block_scaled hstage
  · intro b hb
    change b ∈ (stepBlockInput s.sb s.planner.block).queue.head? at hb
    show b.entrySpeed ≤ max (stepBlockInput s.sb s.planner.block).currentLine.exitSpeed v0
    rw [hqueue] at hb
    rw [hline]
    cases hold : s.sb.queue with
    | nil =>
        rw [hold] at hb
        rw [recalculatePlan_head hb]
        have hlen : s.sb.len = 0 := by rw [s.sb.len_eq_length, hold, List.length_nil]
        have hread : s.lenRead = 0 :=
          Nat.eq_zero_of_not_pos fun hpos => hunemptied ⟨hpos, hlen⟩
        exact (h.block_slow hstage hread).trans (le_max_right _ _)
    | cons a l =>
        rw [hold, List.cons_append] at hb
        rw [recalculatePlan_head hb]
        exact h.front a (by rw [hold]; rfl)
  · exact h.passed
  · exact fun hstage => by simp at hstage
  · exact fun hstage => by simp at hstage
  · exact fun hstage => by simp at hstage
  · exact fun hstage => by simp at hstage

omit [Sqrtf R] in
/-- A step of the interrupt or of the caller that inserts nothing. -/
theorem Planning.Smooth.advances {s : Planning R} (h : s.Smooth v0) {sb : StepBlock R}
    (hsound : sb.Sound) (hadvances : Advances s.sb sb) : (s.pass sb).Smooth v0 := by
  rcases hadvances with ⟨htail, hqueue, rateNominal, rateExit, hline⟩ |
    ⟨line, rest, -, hbefore, hafter, hline⟩
  · refine h.still hsound hqueue htail ?_
    rw [hline]
    rfl
  · exact h.loads hsound hbefore hafter hline

/-- Every step of a run with steady calls keeps the invariant. -/
theorem Planning.Smooth.step {s t : Planning R} {a : PlanAction R} (h : s.Smooth v0)
    (hstep : s.step a = some t) (hsteady : s.Steady v0 a) : t.Smooth v0 := by
  cases a with
  | prepare param args =>
      obtain ⟨-, rfl⟩ := Option.ite_some_none_eq_some.mp hstep
      exact h.prepare param hsteady.1
  | insert =>
      obtain ⟨hready, rfl⟩ := Option.ite_some_none_eq_some.mp hstep
      exact h.insert hready.1 hready.2 hsteady.2
  | idleTest param =>
      obtain ⟨-, rfl⟩ := Option.ite_some_none_eq_some.mp hstep
      refine Planning.Smooth.free (s := s.pass (stepBlockIdleTest param s.sb)) ?_
      exact h.advances (idleTest_cases param h.sound).1 (idleTest_advances param h.sound)
  | tick param pins =>
      obtain ⟨htimer, rfl⟩ := Option.ite_some_none_eq_some.mp hstep
      exact h.advances (isr_cases param pins h.sound htimer).1
        (isr_advances param pins h.sound htimer)

end

end

end

/-! ## Runs -/

/-- In every run of steady calls, with any interrupts in between, no junction is passed
with a jump up in speed beyond the default entry speed. -/
theorem junctions_continuous {R : Type*} [Field R] [LinearOrder R] [IsStrictOrderedRing R]
    [FloorRing R] [Sqrtf R] (v0 : R) (as : List (PlanAction R))
    (hsteady : (planning R).AllSteps (Planning.Steady v0) (.boot R) as) :
    (planning R).Always (Planning.Continuous v0) (.boot R) as :=
  Machine.always_of_allSteps (J := Planning.Smooth v0) (fun _ h => h.passed)
    (fun _ _ _ h hstep hcalls => h.step hstep hcalls) (Planning.boot_smooth v0) hsteady

/-- Ten steps of the X axis, a tenth of a millimetre, at 2 mm/s. -/
def tenSteps : MotionArgs ℚ where
  steps := fun i => if i = 0 then 10 else 0
  dist := fun i => if i = 0 then 1 / 10 else 0
  speed := 2
  length := 1 / 10
  useAccel := true
  defaultEntrySpeed := 1
  defaultExitSpeed := 1

def callTenSteps : List (PlanAction ℚ) :=
  [.prepare sampleParam tenSteps, .insert, .idleTest sampleParam]

/-- The interrupts that execute one motion. -/
def executeTenSteps : List (PlanAction ℚ) :=
  List.replicate 11 (.tick sampleParam releasedPins)

/-- Three calls, and the execution of their motions. -/
def threeInTime : List (PlanAction ℚ) :=
  callTenSteps ++ callTenSteps ++ callTenSteps ++ executeTenSteps ++ executeTenSteps ++
    executeTenSteps

theorem junctions_continuous_threeInTime :
    (planning ℚ).Always (Planning.Continuous 1) (.boot ℚ) threeInTime :=
  junctions_continuous 1 threeInTime (by decide +kernel)

/-- The first motion ends between the preparation and the insertion of the third. -/
def emptied : List (PlanAction ℚ) :=
  callTenSteps ++ callTenSteps ++ [.prepare sampleParam tenSteps] ++ executeTenSteps ++
    [.insert, .idleTest sampleParam] ++ executeTenSteps

/-- The second motion is planned to end with 1.2 mm/s, and the third one is loaded with
2 mm/s, twice the default entry speed. -/
theorem emptied_jumps :
    ¬ ((planning ℚ).AllSteps (Planning.Positive 1) (.boot ℚ) emptied →
      (planning ℚ).Always (Planning.Continuous 1) (.boot ℚ) emptied) := by
  intro hcontinuous
  have halways := hcontinuous (by decide +kernel)
  have hexec : ((planning ℚ).exec (.boot ℚ) emptied).map
      (fun t => t.junctions.map fun j => (j.2.entrySpeed, j.1.exitSpeed)) =
        some [(1, 6 / 5), (2, 6 / 5)] := by
    decide +kernel
  obtain ⟨t, ht, hobserved⟩ := Option.map_eq_some_iff.mp hexec
  have hmem : ((2 : ℚ), (6 / 5 : ℚ)) ∈
      t.junctions.map fun j => (j.2.entrySpeed, j.1.exitSpeed) := by
    rw [hobserved]
    simp
  obtain ⟨j, hj, heq⟩ := List.mem_map.mp hmem
  obtain ⟨hentry, hexit⟩ := Prod.mk.inj heq
  have hle := halways.exec ht j hj
  rw [hentry, hexit] at hle
  norm_num at hle

end TdPrinter
