import TdPrinter.Motion.PlannerPasses

/-!
# No trapezoid is out of date

A block keeps the trapezoid that `calculate_trapezoid_for_block` computed from two
speeds: its own entry speed and that of the block behind it.  `planner_recalculate`
only computes the trapezoids that `recalculate_flag` asks for, `current` or `next`.

The passes note every entry speed that they change in the flag (`Replanned`), and the
block in front of a new one is computed because the new one carries the flag.  So
after every call the stored trapezoids are those of the speeds at hand; whether the
speeds themselves make sense does not matter here.
-/

namespace TdPrinter

section

variable {R : Type*} [Field R] [LinearOrder R] [FloorRing R]

/-- The trapezoid in `b` is the one computed from the entry speed of `b` and `next`,
the speed at its end. -/
structure Stored (b : MotionLine R) (next : R) : Prop where
  entryRate_eq : b.entryRate = (calculateTrapezoidForBlock b (b.entrySpeed / b.nominalSpeed)
    (next / b.nominalSpeed)).entryRate
  exitRate_eq : b.exitRate = (calculateTrapezoidForBlock b (b.entrySpeed / b.nominalSpeed)
    (next / b.nominalSpeed)).exitRate
  accelBefore_eq : b.accelBefore = (calculateTrapezoidForBlock b (b.entrySpeed / b.nominalSpeed)
    (next / b.nominalSpeed)).accelBefore
  decelAfter_eq : b.decelAfter = (calculateTrapezoidForBlock b (b.entrySpeed / b.nominalSpeed)
    (next / b.nominalSpeed)).decelAfter

/-- Every block of the queue stores the trapezoid of its entry speed and that of the
block behind it; the newest one is to end with `MINIMUM_PLANNER_SPEED`.  The blocks
are not `busy`, so a computation has an effect. -/
structure Timed (queue : List (MotionLine R)) : Prop where
  idle : ∀ b ∈ queue, b.busy = false
  settled : ∀ b ∈ queue, b.recalculateFlag = false
  stored : queue.IsChain fun b c => Stored b c.entrySpeed
  last : ∀ b ∈ queue.getLast?, Stored b minimumPlannerSpeed

theorem Timed.tail {queue : List (MotionLine R)} (h : Timed queue) : Timed queue.tail where
  idle b hb := h.idle b (List.mem_of_mem_tail hb)
  settled b hb := h.settled b (List.mem_of_mem_tail hb)
  stored := h.stored.tail
  last b hb := h.last b (mem_getLast?_of_tail hb)

theorem stored_calculate {b : MotionLine R} (hidle : b.busy = false) (next : R) :
    Stored { calculateTrapezoidForBlock b (b.entrySpeed / b.nominalSpeed)
      (next / b.nominalSpeed) with recalculateFlag := false } next := by
  constructor <;> simp [calculateTrapezoidForBlock, hidle]

theorem Stored.reflag {b : MotionLine R} {next : R} (h : Stored b next) (hidle : b.busy = false)
    (nominalLength recalculate : Bool) :
    Stored { b with nominalLengthFlag := nominalLength, recalculateFlag := recalculate } next where
  entryRate_eq := by simpa [calculateTrapezoidForBlock, hidle] using h.entryRate_eq
  exitRate_eq := by simpa [calculateTrapezoidForBlock, hidle] using h.exitRate_eq
  accelBefore_eq := by simpa [calculateTrapezoidForBlock, hidle] using h.accelBefore_eq
  decelAfter_eq := by simpa [calculateTrapezoidForBlock, hidle] using h.decelAfter_eq

/-- The flags ask for the trapezoid of `b` if it is out of date. -/
def Due (b c : MotionLine R) : Prop :=
  b.recalculateFlag = false → c.recalculateFlag = false → Stored b c.entrySpeed

theorem trapezoidKernel_stored {b c : MotionLine R} (hidle : b.busy = false) (h : Due b c) :
    Stored (trapezoidKernel b c) c.entrySpeed ∧ (trapezoidKernel b c).recalculateFlag = false := by
  unfold trapezoidKernel
  split
  · exact ⟨stored_calculate hidle c.entrySpeed, rfl⟩
  · rename_i hflags
    rw [Bool.or_eq_true, not_or, Bool.not_eq_true, Bool.not_eq_true] at hflags
    exact ⟨h hflags.1 hflags.2, hflags.1⟩

/-- The last pass computes every trapezoid that is out of date. -/
theorem trapezoidPlan_timed {queue : List (MotionLine R)} (hidle : ∀ b ∈ queue, b.busy = false)
    (hdue : queue.IsChain Due) : Timed (trapezoidPlan queue) := by
  induction queue with
  | nil => exact ⟨by simp [trapezoidPlan], by simp [trapezoidPlan], .nil, by simp [trapezoidPlan]⟩
  | cons b l ih =>
      have hb := hidle b List.mem_cons_self
      cases l with
      | nil =>
          have hlast := stored_calculate hb minimumPlannerSpeed
          obtain ⟨_, _, _, _, _, h⟩ := trapezoidLast_retimed b
          refine ⟨fun c hc => ?_, fun c hc => ?_, .singleton _, fun c hc => ?_⟩
          · rw [List.mem_singleton.mp hc, h]
            exact hb
          · rw [List.mem_singleton.mp hc]
            rfl
          · obtain rfl := Option.some.inj hc
            exact hlast
      | cons c l =>
          rw [List.isChain_cons_cons] at hdue
          obtain ⟨hstored, hflag⟩ := trapezoidKernel_stored hb hdue.1
          have htimed := ih (fun d hd => hidle d (List.mem_cons_of_mem b hd)) hdue.2
          obtain ⟨_, _, _, _, _, h⟩ := trapezoidKernel_retimed b c
          obtain ⟨d, m, ⟨_, _, _, _, _, rfl⟩, -, hm⟩ :=
            List.forall₂_cons_left_iff.mp (trapezoidPlan_retimed (c :: l))
          rw [trapezoidPlan]
          rw [hm] at htimed ⊢
          refine ⟨fun d hd => ?_, fun d hd => ?_, .cons_cons hstored htimed.stored, ?_⟩
          · rcases List.mem_cons.mp hd with rfl | hd
            · rw [h]
              exact hb
            · exact htimed.idle d hd
          · rcases List.mem_cons.mp hd with rfl | hd
            · exact hflag
            · exact htimed.settled d hd
          · rw [List.getLast?_cons_cons]
            exact htimed.last

end

section

variable {R : Type*} [Field R] [LinearOrder R] [FloorRing R] [Sqrtf R]

omit [FloorRing R] in
theorem reversePlan_forwardPlan_replanned (queue : List (MotionLine R)) :
    List.Forall₂ Replanned queue (forwardPlan (reversePlan queue)) :=
  forall₂_trans (fun _ _ _ h h' => h.trans h') (reversePlan_replanned queue)
    (forwardPlan_replanned _)

/-- Where the flags ask for every trapezoid that is out of date, the planner leaves none
out of date. -/
theorem recalculatePlan_timed_of_due {queue : List (MotionLine R)}
    (hidle : ∀ b ∈ queue, b.busy = false) (hdue : queue.IsChain Due) :
    Timed (recalculatePlan queue) := by
  have hreplanned := reversePlan_forwardPlan_replanned queue
  have hchain : queue.IsChain fun b c => b.busy = false ∧ Due b c :=
    hdue.imp_of_mem_imp fun b _ hb _ hbc => ⟨hidle b hb, hbc⟩
  refine trapezoidPlan_timed ?_ (isChain_of_forall₂ hreplanned hchain ?_)
  · refine forall_of_forall₂ hreplanned hidle ?_
    rintro b _ ⟨_, _, _, rfl, -⟩ hb
    exact hb
  · rintro b _ c _ ⟨_, _, _, rfl, hb⟩ ⟨_, _, _, rfl, hc⟩ ⟨hbidle, hstored⟩ hboff hcoff
    obtain ⟨rfl, hbflag⟩ := hb hboff
    obtain ⟨rfl, hcflag⟩ := hc hcoff
    exact (hstored hbflag hcflag).reflag hbidle _ _

/-- After a block has been added, the planner leaves no trapezoid out of date. -/
theorem recalculatePlan_timed {queue : List (MotionLine R)} {block : MotionLine R}
    (h : Timed queue) (hidle : block.busy = false) (hflag : block.recalculateFlag = true) :
    Timed (recalculatePlan (queue ++ [block])) := by
  refine recalculatePlan_timed_of_due (fun b hb => ?_)
    (List.IsChain.append (h.stored.imp fun b c hstored _ _ => hstored) (.singleton block) ?_)
  · rcases List.mem_append.mp hb with hb | hb
    · exact h.idle b hb
    · rw [List.mem_singleton.mp hb]
      exact hidle
  · intro b _ c hc _ hcflag
    obtain rfl := Option.some.inj hc
    simp [hflag] at hcflag

end

end TdPrinter
