import TdPrinter.Planning.Freshness

/-!
# The planned speeds can be driven

A queued block is a segment of a path in the sense of `Foundation/Lookahead.lean`: its
reach is `speedAfterAccel` over its own distance with its own acceleration.  This
module shows that the two passes of `planner_recalculate` compute the look-ahead of
that library, although they skip most of it:

* the reverse pass skips blocks with `entrySpeed` at `jerkEntrySpeed`, and sets
  `nominal_length_flag` for them;
* both passes skip the computation for blocks with `nominal_length_flag`;
* queues of at most two blocks are not reverse planned at all.

A flag is deserved (`FlagDeserved`) when the block reaches its nominal speed even from
`v0`, or when it comes in at `jerkEntrySpeed`.  The second reason outlives the passes
only because the look-ahead never lowers the entry speed of a block that was feasible
before, whatever happens to the blocks in front of it.
-/

namespace TdPrinter

open Segment

section

variable {R : Type*} [Field R] [LinearOrder R] [Sqrtf R]

def MotionLine.segment (b : MotionLine R) : Segment R where
  entry := b.entrySpeed
  cap := b.jerkEntrySpeed
  reach v := TdPrinter.speedAfterAccel v b.accelSpeed b.distance

structure Plannable (v0 : R) (b : MotionLine R) : Prop where
  accelSpeed_pos : 0 < b.accelSpeed
  distance_pos : 0 < b.distance
  floor_le : v0 ≤ b.entrySpeed
  entry_le : b.entrySpeed ≤ b.jerkEntrySpeed
  jerk_le : b.jerkEntrySpeed ≤ b.nominalSpeed

/-- What `nominal_length_flag` promises: the block reaches its nominal speed from
`v0`, or its entry speed, which is not below `entry`, is `jerkEntrySpeed`. -/
def FlagDeserved (v0 entry : R) (b : MotionLine R) : Prop :=
  b.nominalLengthFlag = true →
    b.nominalSpeed ≤ b.segment.reach v0 ∨ b.jerkEntrySpeed ≤ entry

/-- The junction behind `b` was not planned faster than `b` can end. -/
def Follows (b c : MotionLine R) : Prop :=
  c.jerkEntrySpeed ≤ b.segment.reach b.jerkEntrySpeed ∧ c.jerkEntrySpeed ≤ b.nominalSpeed

/-! ## speedAfterAccel -/

section

variable [IsStrictOrderedRing R] [LawfulSqrtf R]

theorem speedAfterAccel_nonneg {a d : R} (v : R) (ha : 0 < a) (hd : 0 < d) :
    0 ≤ speedAfterAccel v a d := by
  have hpos : 0 < v * v + 2 * a * d := add_pos_of_nonneg_of_pos (mul_self_nonneg v) (by positivity)
  rw [speedAfterAccel, if_pos hpos]
  exact LawfulSqrtf.sqrtf_nonneg _

/-- Exact arithmetic: the square grows by `2 a d`. -/
theorem speedAfterAccel_sq {a d : R} (v : R) (ha : 0 < a) (hd : 0 < d) :
    speedAfterAccel v a d ^ 2 = v ^ 2 + 2 * a * d := by
  have hpos : 0 < v * v + 2 * a * d := add_pos_of_nonneg_of_pos (mul_self_nonneg v) (by positivity)
  rw [speedAfterAccel, if_pos hpos, sq, LawfulSqrtf.sqrtf_mul_self _ hpos.le, sq]

/-- A speed can be reached exactly if its square can. -/
theorem le_speedAfterAccel_iff {a d v w : R} (ha : 0 < a) (hd : 0 < d) (hw : 0 ≤ w) :
    w ≤ speedAfterAccel v a d ↔ w ^ 2 ≤ v ^ 2 + 2 * a * d := by
  rw [← speedAfterAccel_sq v ha hd]
  exact (pow_le_pow_iff_left₀ hw (speedAfterAccel_nonneg v ha hd) two_ne_zero).symm

theorem self_le_speedAfterAccel {a d v : R} (hv : 0 ≤ v) (ha : 0 < a) (hd : 0 < d) :
    v ≤ speedAfterAccel v a d := by
  refine (le_speedAfterAccel_iff ha hd hv).mpr ?_
  have := mul_pos ha hd
  linarith

theorem Plannable.sound {v0 : R} {b : MotionLine R} (h : Plannable v0 b) (hv0 : 0 ≤ v0) :
    b.segment.Sound v0 where
  floor_le := h.floor_le
  entry_le := h.entry_le
  le_reach v hv := self_le_speedAfterAccel (hv0.trans hv) h.accelSpeed_pos h.distance_pos
  reach_mono v w hv hvw := by
    have hnonneg := speedAfterAccel_nonneg v h.accelSpeed_pos h.distance_pos
    refine (le_speedAfterAccel_iff h.accelSpeed_pos h.distance_pos hnonneg).mpr ?_
    rw [speedAfterAccel_sq v h.accelSpeed_pos h.distance_pos]
    have := pow_le_pow_left₀ (hv0.trans hv) hvw 2
    linarith

end

/-! ## What planning leaves alone -/

theorem Plannable.replanned {v0 : R} {b b' : MotionLine R} (h : Plannable v0 b)
    (hreplanned : Replanned b b') (hsound : b'.segment.Sound v0) : Plannable v0 b' := by
  obtain ⟨_, _, _, rfl, -⟩ := hreplanned
  exact ⟨h.accelSpeed_pos, h.distance_pos, hsound.floor_le, hsound.entry_le, h.jerk_le⟩

theorem Follows.replanned {b b' c c' : MotionLine R} (h : Follows b c) (hb : Replanned b b')
    (hc : Replanned c c') : Follows b' c' := by
  obtain ⟨_, _, _, rfl, -⟩ := hb
  obtain ⟨_, _, _, rfl, -⟩ := hc
  exact h

/-! ## The reverse pass -/

section

variable [IsStrictOrderedRing R] [LawfulSqrtf R] {v0 : R}

/-- The kernel of the reverse pass is a step of the pass backwards. -/
theorem reverseKernel_segment (hv0 : 0 ≤ v0) {b c : MotionLine R} (hb : Plannable v0 b)
    (hc : Plannable v0 c) (hflag : FlagDeserved v0 b.entrySpeed b)
    (hbrakes : Brakes b.segment c.segment) :
    (reverseKernel b c).segment = b.segment.brakeFor c.segment ∧
      FlagDeserved v0 b.entrySpeed (reverseKernel b c) := by
  have hsound := hb.sound hv0
  unfold reverseKernel
  split
  · rename_i hne
    split
    · exact ⟨rfl, hflag⟩
    · rename_i hskip
      -- `jerkEntrySpeed` can be braked from
      have hreach : b.jerkEntrySpeed ≤ b.segment.reach c.entrySpeed := by
        cases hon : b.nominalLengthFlag with
        | true =>
            rcases hflag hon with hnominal | hjerk
            · exact (hb.jerk_le.trans hnominal).trans
                (hsound.reach_mono _ _ le_rfl hc.floor_le)
            · exact absurd (le_antisymm hb.entry_le hjerk) hne
        | false =>
            have hle : b.jerkEntrySpeed ≤ c.entrySpeed :=
              not_lt.mp fun hlt => hskip ⟨hon, hlt⟩
            exact hle.trans (hsound.le_reach _ hc.floor_le)
      refine ⟨?_, hflag⟩
      rw [brakeFor_of_le hreach]
      rfl
  · rename_i heq
    rw [not_not] at heq
    refine ⟨?_, fun _ => Or.inr heq.ge⟩
    rw [brakeFor_of_le (heq.ge.trans hbrakes)]
    simp only [MotionLine.segment, heq]

theorem foldr_reverseOnto_segments (hv0 : 0 ≤ v0) {l : List (MotionLine R)}
    {block : MotionLine R} (hl : ∀ b ∈ l ++ [block], Plannable v0 b)
    (hflags : ∀ b ∈ l, FlagDeserved v0 b.entrySpeed b) (hblock : FlagDeserved v0 v0 block)
    (hbrakes : ((l ++ [block]).map MotionLine.segment).IsChain Brakes) :
    ((l ++ [block]).foldr reverseOnto []).map MotionLine.segment =
        backPass ((l ++ [block]).map MotionLine.segment) ∧
      List.Forall₂ (fun o b => FlagDeserved v0 (Segment.entry o) b)
        (l.map MotionLine.segment ++ [block.segment.lowered v0])
        ((l ++ [block]).foldr reverseOnto []) := by
  induction l with
  | nil => exact ⟨rfl, .cons hblock .nil⟩
  | cons b l ih =>
      have hb := hl b List.mem_cons_self
      have hrest : ∀ c ∈ l ++ [block], Plannable v0 c := fun c hc =>
        hl c (List.mem_cons_of_mem b hc)
      rw [List.cons_append, List.map_cons] at hbrakes
      obtain ⟨hsegments, hdeserved⟩ :=
        ih hrest (fun c hc => hflags c (List.mem_cons_of_mem b hc)) hbrakes.tail
      have hreplanned := foldr_reverseOnto_replanned (l ++ [block])
      rw [List.cons_append, List.foldr_cons, List.map_cons, backPass, List.foldr_cons, ← backPass,
        ← hsegments]
      obtain ⟨d, rest, hd⟩ := List.exists_cons_of_ne_nil (List.concat_ne_nil block l)
      rw [hd] at hsegments hdeserved hreplanned hrest hbrakes ⊢
      -- `c` is what the pass has made of the block behind `b`
      obtain ⟨c, m, hdc, -, hm⟩ := List.forall₂_cons_left_iff.mp hreplanned
      rw [hm] at hsegments hdeserved ⊢
      have hsounds : ∀ s ∈ (d :: rest).map MotionLine.segment, s.Sound v0 := by
        intro s hs
        obtain ⟨e, he, rfl⟩ := List.mem_map.mp hs
        exact (hrest e he).sound hv0
      obtain ⟨hraises, hsounds', -, -⟩ := backPass_spec hsounds hbrakes.tail
      rw [← hsegments] at hraises hsounds'
      rw [List.map_cons, List.map_cons, List.forall₂_cons] at hraises
      have hdplan := hrest d List.mem_cons_self
      have hc := hdplan.replanned hdc (hsounds' c.segment (by simp))
      rw [List.map_cons, List.isChain_cons_cons] at hbrakes
      obtain ⟨hsegment, hflag⟩ := reverseKernel_segment hv0 hb hc (hflags b List.mem_cons_self)
        (hbrakes.1.of_raises (hb.sound hv0) hdplan.floor_le hraises.1)
      refine ⟨?_, .cons hflag hdeserved⟩
      rw [reverseOnto, List.map_cons, List.map_cons, backOnto, hsegment]

/-! ## The forward pass -/

/-- The kernel of the forward pass is a step of the pass forwards. -/
theorem forwardKernel_segment (hv0 : 0 ≤ v0) {b c : MotionLine R} {entry : R}
    (hb : Plannable v0 b) (hc : Plannable v0 c) (hfollows : Follows b c)
    (hentry : entry ≤ b.entrySpeed) (hflag : FlagDeserved v0 entry b) :
    (forwardKernel b c).segment = b.segment.climbFrom c.segment := by
  have hsound := hb.sound hv0
  unfold forwardKernel
  split
  · dsimp only
    split
    · rfl
    · rename_i heq
      rw [not_not] at heq
      simp only [MotionLine.segment, climbFrom, ← heq]
  · rename_i hskip
    refine (climbFrom_of_climbs ?_).symm
    show c.entrySpeed ≤ b.segment.reach b.entrySpeed
    cases hon : b.nominalLengthFlag with
    | true =>
        refine hc.entry_le.trans ?_
        rcases hflag hon with hnominal | hjerk
        · exact (hfollows.2.trans hnominal).trans (hsound.reach_mono _ _ le_rfl hb.floor_le)
        · exact hfollows.1.trans
            (hsound.reach_mono _ _ (hb.floor_le.trans hb.entry_le) (hjerk.trans hentry))
    | false =>
        have hle : c.entrySpeed ≤ b.entrySpeed := not_lt.mp fun hlt => hskip ⟨hon, hlt⟩
        exact hle.trans (hsound.le_reach _ hb.floor_le)

omit [IsStrictOrderedRing R] [LawfulSqrtf R] in
theorem forwardKernel_flag (b c : MotionLine R) :
    (forwardKernel b c).nominalLengthFlag = c.nominalLengthFlag := by
  unfold forwardKernel
  split
  · dsimp only
    split <;> rfl
  · rfl

omit [IsStrictOrderedRing R] [LawfulSqrtf R] in
theorem FlagDeserved.forward {entry : R} {c : MotionLine R} (h : FlagDeserved v0 entry c)
    (b : MotionLine R) : FlagDeserved v0 entry (forwardKernel b c) := by
  intro hon
  rw [forwardKernel_flag] at hon
  obtain ⟨_, _, _, heq, -⟩ := forwardKernel_replanned b c
  rw [heq]
  exact h hon

/-- The forward pass computes the pass forwards.  The segments `o :: m` are a chain of
reachable speeds below the queue; they keep the flags deserved. -/
theorem forwardFrom_segments (hv0 : 0 ≤ v0) {b : MotionLine R} {l : List (MotionLine R)}
    {o : Segment R} {m : List (Segment R)} (hb : Plannable v0 b) (hl : ∀ c ∈ l, Plannable v0 c)
    (hfollows : (b :: l).IsChain Follows) (ho : o.Sound v0) (hm : ∀ p ∈ m, p.Sound v0)
    (hclimbs : (o :: m).IsChain Climbs) (hob : Raises o b.segment)
    (hml : List.Forall₂ (fun p c => Raises p c.segment) m l) (hflag : FlagDeserved v0 o.entry b)
    (hflags : List.Forall₂ (fun p c => FlagDeserved v0 (Segment.entry p) c) m l) :
    (forwardFrom b l).map MotionLine.segment = forthFrom b.segment (l.map MotionLine.segment) ∧
      List.Forall₂ (fun p c => FlagDeserved v0 (Segment.entry p) c) (o :: m) (forwardFrom b l) := by
  induction l generalizing b o m with
  | nil =>
      cases hml
      exact ⟨rfl, .cons hflag .nil⟩
  | cons c l ih =>
      obtain ⟨p, m, hpc, hrest, rfl⟩ := List.forall₂_cons_right_iff.mp hml
      rw [List.forall₂_cons] at hflags
      rw [List.isChain_cons_cons] at hfollows hclimbs
      have hc := hl c List.mem_cons_self
      have hsegment := forwardKernel_segment hv0 hb hc hfollows.1 hob.entry_le hflag
      have hreplanned := forwardKernel_replanned b c
      have hsound : (forwardKernel b c).segment.Sound v0 := by
        rw [hsegment]
        exact climbFrom_sound (hb.sound hv0) (hc.sound hv0)
      have hraises : Raises p (forwardKernel b c).segment := by
        rw [hsegment]
        exact climbFrom_raises ho hob hpc hclimbs.1
      obtain ⟨hsegments, hdeserved⟩ := ih (hc.replanned hreplanned hsound)
        (fun d hd => hl d (List.mem_cons_of_mem c hd))
        (hfollows.2.imp_head fun h => h.replanned hreplanned (.refl _)) (hm p List.mem_cons_self)
        (fun q hq => hm q (List.mem_cons_of_mem p hq)) hclimbs.2 hraises hrest (hflags.1.forward b)
        hflags.2
      refine ⟨?_, .cons hflag hdeserved⟩
      rw [forwardFrom, List.map_cons, hsegments, List.map_cons, forthFrom, hsegment]

end

end

/-! ## The queue -/

section

variable {R : Type*} [Field R] [LinearOrder R] [FloorRing R] [Sqrtf R]

omit [FloorRing R] in
theorem reversePlan_concat (b block : MotionLine R) (l : List (MotionLine R)) :
    reversePlan (b :: (l ++ [block])) = b :: (l ++ [block]).foldr reverseOnto [] := by
  cases l with
  | nil => rfl
  | cons c l => cases l <;> rfl

/-- What holds of the queue between two calls of the planner. -/
structure Planned (v0 : R) (queue : List (MotionLine R)) : Prop where
  plannable : ∀ b ∈ queue, Plannable v0 b
  flags : ∀ b ∈ queue, FlagDeserved v0 b.entrySpeed b
  follows : queue.IsChain Follows
  feasible : Feasible v0 (queue.map MotionLine.segment)
  timed : Timed queue

/-- The block is prepared to join the queue. -/
structure Joins (v0 : R) (queue : List (MotionLine R)) (block : MotionLine R) : Prop where
  plannable : Plannable v0 block
  flag : FlagDeserved v0 v0 block
  ends : block.entrySpeed ≤ block.segment.reach v0
  follows : ∀ b ∈ queue.getLast?, Follows b block
  idle : block.busy = false
  recalculate : block.recalculateFlag = true

theorem Planned.nil (v0 : R) : Planned v0 [] where
  plannable := by simp
  flags := by simp
  follows := .nil
  feasible := ⟨by simp, .nil, .nil, by simp⟩
  timed := ⟨by simp, by simp, .nil, by simp⟩

/-- A motion that is taken out at the front leaves the rest planned. -/
theorem Planned.tail {v0 : R} {queue : List (MotionLine R)} (h : Planned v0 queue) :
    Planned v0 queue.tail where
  plannable b hb := h.plannable b (List.mem_of_mem_tail hb)
  flags b hb := h.flags b (List.mem_of_mem_tail hb)
  follows := h.follows.tail
  feasible := by
    rw [List.map_tail]
    exact h.feasible.tail
  timed := h.timed.tail

variable [IsStrictOrderedRing R] [LawfulSqrtf R] {v0 : R}

omit [FloorRing R] [IsStrictOrderedRing R] [LawfulSqrtf R] in
theorem map_segment_concat (l : List (MotionLine R)) (block : MotionLine R) :
    (l ++ [block]).map MotionLine.segment = l.map MotionLine.segment ++ [block.segment] :=
  List.map_append

omit [FloorRing R] in
/-- Both passes together compute the look-ahead, and the flags are deserved by a chain
of speeds that they do not go below. -/
theorem passes_segments (hv0 : 0 ≤ v0) {queue : List (MotionLine R)} {block : MotionLine R}
    (hplannable : ∀ b ∈ queue ++ [block], Plannable v0 b)
    (hflags : ∀ b ∈ queue, FlagDeserved v0 b.entrySpeed b) (hflag : FlagDeserved v0 v0 block)
    (hfollows : (queue ++ [block]).IsChain Follows)
    (hfeasible : Feasible v0 (queue.map MotionLine.segment)) :
    (forwardPlan (reversePlan (queue ++ [block]))).map MotionLine.segment =
        lookahead ((queue ++ [block]).map MotionLine.segment) ∧
      List.Forall₂ (fun o b => FlagDeserved v0 (Segment.entry o) b)
        (queue.map MotionLine.segment ++ [block.segment.lowered v0])
        (forwardPlan (reversePlan (queue ++ [block]))) := by
  have hblock := (hplannable block (by simp)).sound hv0
  have hlowered := hfeasible.concat_lowered hblock
  have hbrakes : ((queue ++ [block]).map MotionLine.segment).IsChain Brakes := by
    rw [map_segment_concat]
    exact hfeasible.concat_brakes hblock
  cases queue with
  | nil => exact ⟨rfl, .cons hflag .nil⟩
  | cons b l =>
      rw [List.cons_append] at hplannable hfollows hbrakes ⊢
      rw [List.map_cons] at hbrakes
      rw [reversePlan_concat, forwardPlan, List.map_cons, lookahead]
      have hl : ∀ c ∈ l ++ [block], Plannable v0 c := fun c hc =>
        hplannable c (List.mem_cons_of_mem b hc)
      obtain ⟨hsegments, hdeserved⟩ := foldr_reverseOnto_segments hv0 hl
        (fun c hc => hflags c (List.mem_cons_of_mem b hc)) hflag hbrakes.tail
      have hreplanned := foldr_reverseOnto_replanned (l ++ [block])
      have hsounds : ∀ s ∈ (l ++ [block]).map MotionLine.segment, s.Sound v0 := by
        intro s hs
        obtain ⟨c, hc, rfl⟩ := List.mem_map.mp hs
        exact (hl c hc).sound hv0
      obtain ⟨hraises, hsounds', -, -⟩ := backPass_spec hsounds hbrakes.tail
      have hlow := forall₂_lowered (l.map MotionLine.segment) hblock.floor_le
      rw [← map_segment_concat] at hlow
      have habove := forall₂_trans (fun _ _ _ h h' => h.trans h') hlow hraises
      rw [← hsegments] at hsounds' habove ⊢
      generalize (l ++ [block]).foldr reverseOnto [] = r at *
      have hr : ∀ c ∈ r, Plannable v0 c := by
        have hreplan := forall_of_forall₂ (Q := fun c => c.segment.Sound v0 → Plannable v0 c)
          hreplanned hl fun c d hcd hc hd => hc.replanned hcd hd
        exact fun c hc => hreplan c hc (hsounds' _ (List.mem_map_of_mem hc))
      have hb := hplannable b List.mem_cons_self
      exact forwardFrom_segments hv0 hb hr
        (isChain_of_forall₂ (.cons (.refl b) hreplanned) hfollows fun _ _ _ _ hab hcd h =>
          h.replanned hab hcd)
        (hb.sound hv0) (fun p hp => hlowered.sound p (List.mem_cons_of_mem _ hp)) hlowered.climbs
        (.refl _) (List.forall₂_map_right_iff.mp habove) (hflags b List.mem_cons_self) hdeserved

/-- `planner_recalculate` plans the queue that a block has joined. -/
theorem recalculatePlan_planned (hv0 : 0 ≤ v0) {queue : List (MotionLine R)}
    {block : MotionLine R} (h : Planned v0 queue) (hjoins : Joins v0 queue block) :
    Planned v0 (recalculatePlan (queue ++ [block])) := by
  have hplannable : ∀ b ∈ queue ++ [block], Plannable v0 b := by
    intro b hb
    rcases List.mem_append.mp hb with hb | hb
    · exact h.plannable b hb
    · rw [List.mem_singleton.mp hb]
      exact hjoins.plannable
  have hfollows : (queue ++ [block]).IsChain Follows := by
    refine h.follows.append (.singleton block) ?_
    intro b hb c hc
    obtain rfl := Option.some.inj hc
    exact hjoins.follows b hb
  obtain ⟨hsegments, hdeserved⟩ :=
    passes_segments hv0 hplannable h.flags hjoins.flag hfollows h.feasible
  obtain ⟨hfeasible, habove⟩ := h.feasible.extend (hjoins.plannable.sound hv0) hjoins.ends
  rw [← map_segment_concat, ← hsegments] at hfeasible habove
  have hreplanned := reversePlan_forwardPlan_replanned (queue ++ [block])
  have htimed := recalculatePlan_timed h.timed hjoins.idle hjoins.recalculate
  rw [recalculatePlan] at htimed ⊢
  generalize forwardPlan (reversePlan (queue ++ [block])) = r at *
  have hretimed := trapezoidPlan_retimed r
  have hsegment : ∀ b b' : MotionLine R, Retimed b b' → b'.segment = b.segment := by
    rintro b _ ⟨_, _, _, _, _, rfl⟩
    rfl
  refine ⟨?_, ?_, ?_, ?_, htimed⟩
  · have hr := forall_of_forall₂ (Q := fun c => c.segment.Sound v0 → Plannable v0 c) hreplanned
      hplannable fun c d hcd hc hd => hc.replanned hcd hd
    refine forall_of_forall₂ hretimed
      (fun c hc => hr c hc (hfeasible.sound _ (List.mem_map_of_mem hc))) ?_
    rintro b _ ⟨_, _, _, _, _, rfl⟩ hb
    exact ⟨hb.accelSpeed_pos, hb.distance_pos, hb.floor_le, hb.entry_le, hb.jerk_le⟩
  · have hflags : ∀ c ∈ r, FlagDeserved v0 c.entrySpeed c := by
      refine forall_of_forall₂ (P := fun _ => True)
        (List.Forall₂.mp (fun o b hflag hraise hon => ?_) hdeserved
          (List.forall₂_map_right_iff.mp habove)) (fun _ _ => trivial)
        fun (o : Segment R) (b : MotionLine R) (hb : FlagDeserved v0 b.entrySpeed b) _ => hb
      exact (hflag hon).imp_right fun hle => hle.trans (Raises.entry_le hraise)
    refine forall_of_forall₂ hretimed hflags ?_
    rintro b _ ⟨_, _, _, _, _, rfl⟩ hb
    exact hb
  · refine isChain_of_forall₂ hretimed (isChain_of_forall₂ hreplanned hfollows
      fun _ _ _ _ hab hcd h => h.replanned hab hcd) ?_
    rintro b _ c _ ⟨_, _, _, _, _, rfl⟩ ⟨_, _, _, _, _, rfl⟩ hbc
    exact hbc
  · rw [map_eq_of_forall₂ hsegment hretimed]
    exact hfeasible

end

end TdPrinter
