import TdPrinter.Foundation.Lookahead
import TdPrinter.Motion.Planner

/-!
# The planner's loops as folds

Each pass of `planner_recalculate` walks the ring with an index and a shifted array
of pointers.  On the list of queued motions the walks are the folds `reversePlan`,
`forwardPlan` and `trapezoidPlan`.  Every loop is treated alike: the induction is on
the blocks still to be looked at, and the window is written as those, the pair at
hand and the blocks that are done.

The passes rewrite speeds, flags and trapezoids only: `Replanned` and `Retimed`.
-/

namespace TdPrinter

/-! ## The loops compute the folds -/

section

variable {R : Type*} [Field R] [LinearOrder R] [Sqrtf R]

variable {buf : MotionBuffer R} {tail : Fin motionBufferSize} {n : ℕ}

/-- The reverse loop, from the point where the motions `done` have been planned and
the block in front of them is the next to be looked at.  The induction is on the
number of blocks in front; the oldest of them is never looked at. -/
theorem window_plannerReverseLoop (hn : n < motionBufferSize) {oldest c : MotionLine R}
    {done : List (MotionLine R)} :
    ∀ (todo : List (MotionLine R)) (buf : MotionBuffer R) (fuel : ℕ), todo.length < fuel →
      window buf tail n = oldest :: todo ++ c :: done →
      window (plannerReverseLoop tail fuel buf (slot tail todo.length)
        (some (slot tail todo.length)) (some (slot tail (todo.length + 1)))) tail n =
          oldest :: todo.foldr reverseOnto (c :: done) := by
  intro todo
  induction todo using List.reverseRecOn generalizing c done with
  | nil =>
      intro buf fuel hfuel hwindow
      obtain ⟨fuel, rfl⟩ : ∃ m, fuel = m + 1 := ⟨fuel - 1, by simp at hfuel; omega⟩
      simpa [plannerReverseLoop] using hwindow
  | append_singleton todo b ih =>
      intro buf fuel hfuel hwindow
      rw [List.length_append, List.length_singleton] at hfuel ⊢
      obtain ⟨fuel, rfl⟩ : ∃ m, fuel = m + 1 := ⟨fuel - 1, by omega⟩
      have hlen := congrArg List.length hwindow
      simp only [length_window, List.length_append, List.length_cons, List.length_nil] at hlen
      have hne : slot tail (todo.length + 1) ≠ tail := by
        intro heq
        have := slot_injective (by omega) (by decide) (heq.trans (slot_zero tail).symm)
        omega
      -- the block looked at stands at position `todo.length + 1`, the next one after it
      have hcurrent : window buf tail n = (oldest :: todo) ++ b :: (c :: done) := by
        simpa using hwindow
      have hnext : window buf tail n = (oldest :: todo ++ [b]) ++ c :: done := by
        simpa using hwindow
      have hb := buf_slot_of_window hcurrent
      have hc := buf_slot_of_window hnext
      have hupdate := window_update hn.le hcurrent (reverseKernel b c)
      simp only [List.length_cons, List.length_append, List.length_nil] at hb hc hupdate
      rw [plannerReverseLoop, if_neg hne, prevBlockIndex_slot, plannerReversePassKernel, hb, hc,
        ih _ fuel (by omega) (by simpa using hupdate), List.foldr_append]
      rfl

theorem window_plannerReversePass (hn : n < motionBufferSize) :
    window (plannerReversePass buf (slot tail n) tail) tail n =
      reversePlan (window buf tail n) := by
  rw [plannerReversePass, blockSize_slot tail hn]
  generalize hqueue : window buf tail n = queue
  have hlen : n = queue.length := by rw [← hqueue, length_window]
  split
  · rename_i hsize
    -- the two blocks at the end are looked at before any pair is complete
    obtain ⟨oldest, rest, rfl⟩ : ∃ a l, queue = a :: l := by
      cases queue with
      | nil => simp at hlen; omega
      | cons a l => exact ⟨a, l, rfl⟩
    obtain ⟨todo, last, rfl⟩ : ∃ l b, rest = l ++ [b] := by
      cases rest using List.reverseRecOn with
      | nil => simp at hlen; omega
      | append_singleton l b => exact ⟨l, b, rfl⟩
    simp only [List.length_cons, List.length_append, List.length_nil] at hlen
    have hfirst : slot tail n ≠ tail := by
      intro heq
      have := slot_injective hn (by decide) (heq.trans (slot_zero tail).symm)
      omega
    have hsecond : slot tail (todo.length + 1) ≠ tail := by
      intro heq
      have := slot_injective (by omega) (by decide) (heq.trans (slot_zero tail).symm)
      omega
    have hslot : prevBlockIndex (slot tail n) = slot tail (todo.length + 1) := by
      rw [hlen, prevBlockIndex_slot]
    show window (plannerReverseLoop tail (13 + 1 + 1 + 1) buf (slot tail n) none none) tail n = _
    have hwindow : window buf tail n = oldest :: todo ++ last :: [] := by simpa using hqueue
    rw [plannerReverseLoop, if_neg hfirst, hslot, plannerReverseLoop, if_neg hsecond,
      prevBlockIndex_slot]
    simp only [plannerReversePassKernel]
    rw [window_plannerReverseLoop hn todo buf _ (by change n < 16 at hn; omega) hwindow]
    cases todo with
    | nil => simp at hlen; omega
    | cons b todo =>
        cases todo with
        | nil => rfl
        | cons c todo => simp [reversePlan, reverseOnto]
  · rename_i hsize
    rw [hqueue]
    rcases queue with - | ⟨b, - | ⟨c, - | ⟨d, rest⟩⟩⟩
    · rfl
    · rfl
    · rfl
    · simp only [List.length_cons] at hlen
      omega

/-- The forward loop, from the point where `b` and `c` are the last two blocks that
have been fetched. -/
theorem window_plannerForwardLoop (hn : n < motionBufferSize) {b c : MotionLine R} :
    ∀ (pre rest : List (MotionLine R)) (buf : MotionBuffer R) (fuel : ℕ), rest.length < fuel →
      window buf tail n = pre ++ b :: c :: rest →
      window (plannerForwardLoop (slot tail n) fuel buf (slot tail (pre.length + 2))
        (some (slot tail pre.length)) (some (slot tail (pre.length + 1)))) tail n =
          pre ++ forwardFrom b (c :: rest) := by
  intro pre rest
  induction rest generalizing pre b c with
  | nil =>
      intro buf fuel hfuel hwindow
      obtain ⟨fuel, rfl⟩ : ∃ m, fuel = m + 1 := ⟨fuel - 1, by simp at hfuel; omega⟩
      have hlen := congrArg List.length hwindow
      simp only [length_window, List.length_append, List.length_cons, List.length_nil] at hlen
      have hwindow' : window buf tail n = (pre ++ [b]) ++ c :: [] := by simpa using hwindow
      have hb := buf_slot_of_window hwindow
      have hc := buf_slot_of_window hwindow'
      have hupdate := window_update hn.le hwindow' (forwardKernel b c)
      simp only [List.length_append, List.length_singleton] at hc hupdate
      rw [plannerForwardLoop, if_pos (by rw [hlen]), plannerForwardPassKernel, hb, hc, hupdate]
      simp [forwardFrom]
  | cons d rest ih =>
      intro buf fuel hfuel hwindow
      obtain ⟨fuel, rfl⟩ : ∃ m, fuel = m + 1 := ⟨fuel - 1, by simp at hfuel; omega⟩
      have hlen := congrArg List.length hwindow
      simp only [length_window, List.length_append, List.length_cons] at hlen hfuel
      have hne : slot tail (pre.length + 2) ≠ slot tail n := by
        intro heq
        have := slot_injective (by omega) hn heq
        omega
      have hwindow' : window buf tail n = (pre ++ [b]) ++ c :: (d :: rest) := by
        simpa using hwindow
      have hb := buf_slot_of_window hwindow
      have hc := buf_slot_of_window hwindow'
      have hupdate := window_update hn.le hwindow' (forwardKernel b c)
      simp only [List.length_append, List.length_singleton] at hc hupdate
      have hrest := ih (pre ++ [b]) _ fuel (by omega) hupdate
      simp only [List.length_append, List.length_singleton] at hrest
      rw [plannerForwardLoop, if_neg hne, plannerForwardPassKernel, hb, hc, inc_eq_slot, slot_slot,
        hrest]
      simp [forwardFrom]

theorem window_plannerForwardPass (hn : n < motionBufferSize) :
    window (plannerForwardPass buf (slot tail n) tail) tail n =
      forwardPlan (window buf tail n) := by
  have hslot : ∀ k < n, slot tail k ≠ slot tail n := by
    intro k hk heq
    have := slot_injective (by omega) hn heq
    omega
  have hfirst := hslot 0
  have hsecond := hslot 1
  rw [slot_zero] at hfirst
  show window (plannerForwardLoop (slot tail n) (14 + 1 + 1) buf tail none none) tail n = _
  generalize hqueue : window buf tail n = queue
  have hlen : n = queue.length := by rw [← hqueue, length_window]
  match queue, hqueue, hlen with
  | [], hqueue, hlen =>
      obtain rfl : n = 0 := hlen
      rfl
  | [b], hqueue, hlen =>
      obtain rfl : n = 1 := hlen
      rw [plannerForwardLoop, if_neg (hfirst (by omega)), inc_eq_slot, plannerForwardLoop,
        if_pos rfl]
      exact hqueue
  | b :: c :: rest, hqueue, hlen =>
      simp only [List.length_cons] at hlen
      rw [plannerForwardLoop, if_neg (hfirst (by omega)), inc_eq_slot, plannerForwardLoop,
        if_neg (hsecond (by omega)), inc_eq_slot, slot_slot]
      have hloop := window_plannerForwardLoop hn [] rest buf 14
        (by change n < 16 at hn; omega) hqueue
      rw [List.length_nil, slot_zero] at hloop
      exact hloop

end

section

variable {R : Type*} [Field R] [LinearOrder R] [FloorRing R]

variable {buf : MotionBuffer R} {tail : Fin motionBufferSize} {n : ℕ}

/-- The trapezoid loop, from the point where `b` is the last block that has been
fetched. -/
theorem window_plannerTrapezoidsLoop (hn : n < motionBufferSize) {b : MotionLine R} :
    ∀ (pre rest : List (MotionLine R)) (buf : MotionBuffer R) (fuel : ℕ), rest.length < fuel →
      window buf tail n = pre ++ b :: rest →
      window (plannerTrapezoidsLoop (slot tail n) fuel buf (slot tail (pre.length + 1))
        (some (slot tail pre.length))) tail n = pre ++ trapezoidPlan (b :: rest) := by
  intro pre rest
  induction rest generalizing pre b with
  | nil =>
      intro buf fuel hfuel hwindow
      obtain ⟨fuel, rfl⟩ : ∃ m, fuel = m + 1 := ⟨fuel - 1, by simp at hfuel; omega⟩
      have hlen := congrArg List.length hwindow
      simp only [length_window, List.length_append, List.length_cons, List.length_nil] at hlen
      have hb := buf_slot_of_window hwindow
      have hupdate := window_update hn.le hwindow (trapezoidLast b)
      rw [plannerTrapezoidsLoop, if_pos (by rw [hlen]), hb]
      exact hupdate
  | cons c rest ih =>
      intro buf fuel hfuel hwindow
      obtain ⟨fuel, rfl⟩ : ∃ m, fuel = m + 1 := ⟨fuel - 1, by simp at hfuel; omega⟩
      have hlen := congrArg List.length hwindow
      simp only [length_window, List.length_append, List.length_cons] at hlen hfuel
      have hne : slot tail (pre.length + 1) ≠ slot tail n := by
        intro heq
        have := slot_injective (by omega) hn heq
        omega
      have hwindow' : window buf tail n = (pre ++ [b]) ++ c :: rest := by simpa using hwindow
      have hb := buf_slot_of_window hwindow
      have hc := buf_slot_of_window hwindow'
      have hupdate := window_update hn.le hwindow (trapezoidKernel b c)
      have hsplit : pre ++ trapezoidKernel b c :: c :: rest =
          (pre ++ [trapezoidKernel b c]) ++ c :: rest := by simp
      have hrest := ih (pre ++ [trapezoidKernel b c]) _ fuel (by omega) (hupdate.trans hsplit)
      simp only [List.length_append, List.length_singleton] at hc hrest
      rw [plannerTrapezoidsLoop, if_neg hne]
      simp only [hb, hc]
      rw [inc_eq_slot, slot_slot, hrest]
      simp [trapezoidPlan]

theorem window_plannerRecalculateTrapezoids (hn : n < motionBufferSize) :
    window (plannerRecalculateTrapezoids buf (slot tail n) tail) tail n =
      trapezoidPlan (window buf tail n) := by
  show window (plannerTrapezoidsLoop (slot tail n) (15 + 1) buf tail none) tail n = _
  generalize hqueue : window buf tail n = queue
  have hlen : n = queue.length := by rw [← hqueue, length_window]
  match queue, hqueue, hlen with
  | [], hqueue, hlen =>
      obtain rfl : n = 0 := hlen
      rfl
  | b :: rest, hqueue, hlen =>
      rw [List.length_cons] at hlen
      have hne : tail ≠ slot tail n := by
        intro heq
        have := slot_injective (by decide) hn ((slot_zero tail).trans heq)
        omega
      rw [plannerTrapezoidsLoop, if_neg hne, inc_eq_slot]
      have hloop := window_plannerTrapezoidsLoop hn [] rest buf 15
        (by change n < 16 at hn; omega) hqueue
      rw [List.length_nil, slot_zero] at hloop
      exact hloop

end

section

variable {R : Type*} [Field R] [LinearOrder R] [FloorRing R] [Sqrtf R]

theorem queue_plannerRecalculate {sb : StepBlock R} (hlen : sb.len < motionBufferSize)
    (hhead : sb.head = slot sb.tail sb.len) :
    (plannerRecalculate sb).queue = recalculatePlan sb.queue := by
  simp only [StepBlock.queue, plannerRecalculate, recalculatePlan, hhead]
  rw [window_plannerRecalculateTrapezoids hlen, window_plannerForwardPass hlen,
    window_plannerReversePass hlen]

end

/-! ## What the passes rewrite -/

section

variable {R : Type*}

/-- The reverse and the forward pass rewrite the entry speed and two flags; an entry
speed that changes is noted in `recalculate_flag`. -/
def Replanned (b b' : MotionLine R) : Prop :=
  ∃ entrySpeed nominalLength recalculate,
    b' = { b with
      entrySpeed := entrySpeed
      nominalLengthFlag := nominalLength
      recalculateFlag := recalculate } ∧
    (recalculate = false → entrySpeed = b.entrySpeed ∧ b.recalculateFlag = false)

/-- The last pass rewrites the trapezoid. -/
def Retimed (b b' : MotionLine R) : Prop :=
  ∃ entryRate exitRate accelBefore decelAfter recalculate,
    b' = { b with
      entryRate := entryRate
      exitRate := exitRate
      accelBefore := accelBefore
      decelAfter := decelAfter
      recalculateFlag := recalculate }

theorem Replanned.refl (b : MotionLine R) : Replanned b b :=
  ⟨_, _, _, rfl, fun h => ⟨rfl, h⟩⟩

theorem Replanned.trans {a b c : MotionLine R} (h : Replanned a b) (h' : Replanned b c) :
    Replanned a c := by
  obtain ⟨_, _, _, rfl, hab⟩ := h
  obtain ⟨_, _, _, rfl, hbc⟩ := h'
  refine ⟨_, _, _, rfl, ?_⟩
  intro hoff
  obtain ⟨hentry, hoff⟩ := hbc hoff
  exact ⟨hentry.trans (hab hoff).1, (hab hoff).2⟩

/-- A list that agrees entry by entry in a projection has the same projection. -/
theorem map_eq_of_forall₂ {S : MotionLine R → MotionLine R → Prop} {β : Type*}
    {f : MotionLine R → β} (hf : ∀ b b', S b b' → f b' = f b) {l m : List (MotionLine R)}
    (h : List.Forall₂ S l m) : m.map f = l.map f := by
  induction h with
  | nil => rfl
  | cons hbc _ ih => rw [List.map_cons, List.map_cons, hf _ _ hbc, ih]

end

section

variable {R : Type*} [Field R] [LinearOrder R] [Sqrtf R]

theorem reverseKernel_replanned (current next : MotionLine R) :
    Replanned current (reverseKernel current next) := by
  unfold reverseKernel
  split
  · split
    · exact ⟨_, _, _, rfl, fun h => by simp at h⟩
    · exact ⟨_, _, _, rfl, fun h => by simp at h⟩
  · exact ⟨_, _, _, rfl, fun h => ⟨rfl, h⟩⟩

theorem forwardKernel_replanned (previous current : MotionLine R) :
    Replanned current (forwardKernel previous current) := by
  unfold forwardKernel
  split
  · dsimp only
    split
    · exact ⟨_, _, _, rfl, fun h => by simp at h⟩
    · exact .refl _
  · exact .refl _

theorem foldr_reverseOnto_replanned (l : List (MotionLine R)) :
    List.Forall₂ Replanned l (l.foldr reverseOnto []) := by
  induction l with
  | nil => exact .nil
  | cons b l ih =>
      rw [List.foldr_cons]
      generalize l.foldr reverseOnto [] = m at ih
      cases ih with
      | nil => exact .cons (.refl b) .nil
      | cons hc hrest => exact .cons (reverseKernel_replanned b _) (.cons hc hrest)

theorem reversePlan_replanned (queue : List (MotionLine R)) :
    List.Forall₂ Replanned queue (reversePlan queue) := by
  unfold reversePlan
  split
  · exact .cons (.refl _) (foldr_reverseOnto_replanned _)
  · exact List.forall₂_same.mpr fun b _ => .refl b

theorem forwardFrom_replanned (b : MotionLine R) (l : List (MotionLine R)) :
    List.Forall₂ Replanned (b :: l) (forwardFrom b l) := by
  induction l generalizing b with
  | nil => exact .cons (.refl b) .nil
  | cons c l ih =>
      obtain ⟨d, m, hcd, hrest, hfrom⟩ := List.forall₂_cons_left_iff.mp (ih (forwardKernel b c))
      rw [forwardFrom, hfrom]
      exact .cons (.refl b) (.cons ((forwardKernel_replanned b c).trans hcd) hrest)

theorem forwardPlan_replanned (queue : List (MotionLine R)) :
    List.Forall₂ Replanned queue (forwardPlan queue) := by
  cases queue with
  | nil => exact .nil
  | cons b l => exact forwardFrom_replanned b l

end

section

variable {R : Type*} [Field R] [LinearOrder R] [FloorRing R]

theorem calculateTrapezoid_retimed (block : MotionLine R) (entryFactor exitFactor : R) :
    Retimed block (calculateTrapezoidForBlock block entryFactor exitFactor) := by
  simp only [calculateTrapezoidForBlock]
  split
  · exact ⟨_, _, _, _, _, rfl⟩
  · exact ⟨_, _, _, _, _, rfl⟩

/-- The two ends of a trapezoid, none of them below the least rate of the timer. -/
theorem calculateTrapezoid_rates {b : MotionLine R} (hidle : b.busy = false)
    (entryFactor exitFactor : R) :
    (calculateTrapezoidForBlock b entryFactor exitFactor).entryRate =
        max (b.nominalRate * entryFactor) 120 ∧
      (calculateTrapezoidForBlock b entryFactor exitFactor).exitRate =
        max (b.nominalRate * exitFactor) 120 := by
  constructor
  · simp only [calculateTrapezoidForBlock, if_pos hidle]
  · simp only [calculateTrapezoidForBlock, if_pos hidle]

theorem trapezoidLast_retimed (next : MotionLine R) : Retimed next (trapezoidLast next) := by
  obtain ⟨_, _, _, _, _, h⟩ := calculateTrapezoid_retimed next (next.entrySpeed / next.nominalSpeed)
    (minimumPlannerSpeed / next.nominalSpeed)
  exact ⟨_, _, _, _, _, by rw [trapezoidLast, h]⟩

theorem trapezoidKernel_retimed (current next : MotionLine R) :
    Retimed current (trapezoidKernel current next) := by
  unfold trapezoidKernel
  split
  · obtain ⟨_, _, _, _, _, h⟩ := calculateTrapezoid_retimed current
      (current.entrySpeed / current.nominalSpeed) (next.entrySpeed / current.nominalSpeed)
    exact ⟨_, _, _, _, _, by rw [h]⟩
  · exact ⟨_, _, _, _, _, rfl⟩

theorem trapezoidPlan_retimed (queue : List (MotionLine R)) :
    List.Forall₂ Retimed queue (trapezoidPlan queue) := by
  induction queue with
  | nil => exact .nil
  | cons b l ih =>
      cases l with
      | nil => exact .cons (trapezoidLast_retimed b) .nil
      | cons c l => exact .cons (trapezoidKernel_retimed b c) ih

end

section

variable {R : Type*} [Field R] [LinearOrder R] [FloorRing R] [Sqrtf R]

theorem pending_plannerRecalculate {sb : StepBlock R} (hlen : sb.len < motionBufferSize)
    (hhead : sb.head = slot sb.tail sb.len) :
    (plannerRecalculate sb).pending = sb.pending := by
  have hreplanned : ∀ b b' : MotionLine R, Replanned b b' → b'.toCommand = b.toCommand := by
    rintro b _ ⟨_, _, _, rfl, -⟩
    rfl
  have hretimed : ∀ b b' : MotionLine R, Retimed b b' → b'.toCommand = b.toCommand := by
    rintro b _ ⟨_, _, _, _, _, rfl⟩
    rfl
  rw [StepBlock.pending, queue_plannerRecalculate hlen hhead, recalculatePlan,
    map_eq_of_forall₂ hretimed (trapezoidPlan_retimed _),
    map_eq_of_forall₂ hreplanned (forwardPlan_replanned _),
    map_eq_of_forall₂ hreplanned (reversePlan_replanned _), StepBlock.pending]

end

end TdPrinter
