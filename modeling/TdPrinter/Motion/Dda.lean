import TdPrinter.Motion.StepAxis
import Mathlib.Data.List.TakeWhile

/-!
# The differential analyser is exact

`stepAxis_step` adds `stepNeed` to the counter of an axis and makes a step whenever
`masterStep` is passed.  After `k` calls that is `⌊k * stepNeed / masterStep⌋` steps,
until all of them are made in call `masterStep`; the bit of the axis is cleared one
call later.  A switch stops its own axis and no other one.

`DdaInv` is the invariant: the counter and the count of steps are remainder and
quotient of one product.  The product stands still from the call on in which the
axis is stopped, so `callsBefore` counts the calls up to there.
-/

namespace TdPrinter

/-! ## Remainder and quotient -/

/-- Adding to the remainder carries at most one into the quotient. -/
theorem ediv_add_of_carry {x need M : ℤ} (hM : 0 < M) (hle : need ≤ M)
    (hcarry : M ≤ x % M + need) :
    (x + need) / M = x / M + 1 ∧ (x + need) % M = x % M + need - M := by
  have hx := Int.mul_ediv_add_emod x M
  have hlt := Int.emod_lt_of_pos x hM
  have hsum : x + need = x % M + need - M + M * (x / M + 1) := by
    rw [mul_add, mul_one]
    omega
  rw [hsum, Int.add_mul_ediv_left _ _ hM.ne', Int.add_mul_emod_self_left]
  have hzero : 0 ≤ x % M + need - M := by omega
  have hsmall : x % M + need - M < M := by omega
  rw [Int.ediv_eq_zero_of_lt hzero hsmall, Int.emod_eq_of_lt hzero hsmall, zero_add]
  exact ⟨rfl, rfl⟩

theorem ediv_add_of_no_carry {x need M : ℤ} (hM : 0 < M) (hneed : 0 ≤ need)
    (hcarry : x % M + need < M) :
    (x + need) / M = x / M ∧ (x + need) % M = x % M + need := by
  have hx := Int.mul_ediv_add_emod x M
  have hzero : 0 ≤ x % M + need := add_nonneg (Int.emod_nonneg x hM.ne') hneed
  have hsum : x + need = x % M + need + M * (x / M) := by omega
  rw [hsum, Int.add_mul_ediv_left _ _ hM.ne', Int.add_mul_emod_self_left,
    Int.ediv_eq_zero_of_lt hzero hcarry, Int.emod_eq_of_lt hzero hcarry, zero_add]
  exact ⟨rfl, rfl⟩

/-! ## Calls of stepAxis_step -/

/-- What a call of `stepAxis_step` finds: `enableTrigger`, which the command thread
may have set since the last call, and the trigger pins. -/
structure DdaTick where
  enableTrigger : Bool
  pins : TriggerPins

section

variable {R : Type*}

/-- The same axes with `enableTrigger` set to `on`. -/
def StepAxis.withTrigger (a : StepAxis R) (on : Bool) : StepAxis R := { a with enableTrigger := on }

def ddaTick (a : StepAxis R) (t : DdaTick) : StepAxis R :=
  stepAxisStep (a.withTrigger t.enableTrigger) t.pins

/-- A number of calls, one after the other. -/
def ddaRun (a : StepAxis R) (ticks : List DdaTick) : StepAxis R := ticks.foldl ddaTick a

@[simp]
theorem ddaRun_nil (a : StepAxis R) : ddaRun a [] = a := rfl

@[simp]
theorem ddaRun_concat (a : StepAxis R) (ticks : List DdaTick) (t : DdaTick) :
    ddaRun a (ticks ++ [t]) = ddaTick (ddaRun a ticks) t := by
  simp [ddaRun]

/-- The switch that axis `i` moves towards is pressed in this call, with
`enableTrigger` set. -/
def StepAxis.stoppedBy (a : StepAxis R) (t : DdaTick) (i : Axis) : Bool :=
  t.enableTrigger && switchPressed a t.pins i

/-- The number of calls before the first one that stops axis `i`. -/
def callsBefore (a : StepAxis R) (ticks : List DdaTick) (i : Axis) : ℕ :=
  (ticks.takeWhile fun t => !a.stoppedBy t i).length

theorem callsBefore_le (a : StepAxis R) (ticks : List DdaTick) (i : Axis) :
    callsBefore a ticks i ≤ ticks.length :=
  (List.takeWhile_prefix _).length_le

/-- All calls count for an axis that is not stopped. -/
theorem callsBefore_eq_length {a : StepAxis R} {ticks : List DdaTick} {i : Axis}
    (h : ∀ t ∈ ticks, a.stoppedBy t i = false) : callsBefore a ticks i = ticks.length := by
  rw [callsBefore, List.takeWhile_eq_self_iff.mpr]
  intro t ht
  simp [h t ht]

theorem callsBefore_append_of_stopped {a : StepAxis R} {before : List DdaTick} {t : DdaTick}
    {i : Axis} (h : a.stoppedBy t i = true) (after : List DdaTick) :
    callsBefore a (before ++ t :: after) i = callsBefore a before i := by
  induction before with
  | nil => simp [callsBefore, h]
  | cons u before ih =>
      simp only [callsBefore, List.cons_append, List.takeWhile_cons] at ih ⊢
      split
      · simp only [List.length_cons, ih]
      · rfl

theorem callsBefore_concat_of_lt {a : StepAxis R} {ticks : List DdaTick} {i : Axis}
    (h : callsBefore a ticks i < ticks.length) (t : DdaTick) :
    callsBefore a (ticks ++ [t]) i = callsBefore a ticks i := by
  induction ticks with
  | nil => simp at h
  | cons u ticks ih =>
      simp only [callsBefore, List.cons_append, List.takeWhile_cons] at h ih ⊢
      split
      · rename_i hfree
        simp only [hfree, if_true, List.length_cons, Nat.add_lt_add_iff_right] at h
        simp only [List.length_cons, ih h]
      · rfl

theorem callsBefore_concat_of_eq {a : StepAxis R} {ticks : List DdaTick} {i : Axis}
    (h : callsBefore a ticks i = ticks.length) {t : DdaTick} (hfree : a.stoppedBy t i = false) :
    callsBefore a (ticks ++ [t]) i = ticks.length + 1 := by
  have hall := List.takeWhile_eq_self_iff.mp ((List.takeWhile_prefix _).eq_of_length h)
  rw [callsBefore_eq_length]
  · simp
  · intro u hu
    rcases List.mem_append.mp hu with hu | hu
    · simpa using hall u hu
    · rw [List.mem_singleton.mp hu]
      exact hfree

/-! ## One axis over many calls -/

theorem ddaTick_frame (a : StepAxis R) (t : DdaTick) :
    (ddaTick a t).maxTrigger = a.maxTrigger ∧ (ddaTick a t).minTrigger = a.minTrigger ∧
      (ddaTick a t).dir = a.dir ∧ (ddaTick a t).stepNeed = a.stepNeed ∧
      (ddaTick a t).masterStep = a.masterStep :=
  ⟨rfl, rfl, rfl, rfl, rfl⟩

theorem ddaRun_frame (a : StepAxis R) (ticks : List DdaTick) :
    (ddaRun a ticks).maxTrigger = a.maxTrigger ∧ (ddaRun a ticks).minTrigger = a.minTrigger ∧
      (ddaRun a ticks).dir = a.dir ∧ (ddaRun a ticks).stepNeed = a.stepNeed ∧
      (ddaRun a ticks).masterStep = a.masterStep := by
  induction ticks using List.reverseRecOn with
  | nil => exact ⟨rfl, rfl, rfl, rfl, rfl⟩
  | append_singleton ticks t ih =>
      rw [ddaRun_concat]
      obtain ⟨hmax, hmin, hdir, hneed, hmaster⟩ := ddaTick_frame (ddaRun a ticks) t
      exact ⟨hmax.trans ih.1, hmin.trans ih.2.1, hdir.trans ih.2.2.1, hneed.trans ih.2.2.2.1,
        hmaster.trans ih.2.2.2.2⟩

/-- Which calls stop an axis does not change during a motion. -/
theorem stoppedBy_ddaRun (a : StepAxis R) (ticks : List DdaTick) (t : DdaTick) (i : Axis) :
    (ddaRun a ticks).stoppedBy t i = a.stoppedBy t i := by
  obtain ⟨hmax, hmin, hdir, -, -⟩ := ddaRun_frame a ticks
  simp only [StepAxis.stoppedBy, switchPressed, hmax, hmin, hdir]

/-- An axis whose bit is clear after the tests does nothing in this call. -/
theorem stepAxisStep_resting {a : StepAxis R} {pins : TriggerPins} {i : Axis}
    (h : stepAxisStillBusy a pins i = false) :
    (stepAxisStep a pins).busyFlag i = false ∧ (stepAxisStep a pins).step i = a.step i ∧
      (stepAxisStep a pins).counter i = a.counter i ∧
      (stepAxisStep a pins).hardPos i = a.hardPos i := by
  simp [stepAxisStep, stepAxisFires, h]

/-- A busy axis counts, and makes a step if that passes `masterStep`. -/
theorem stepAxisStep_counting {a : StepAxis R} {pins : TriggerPins} {i : Axis}
    (h : stepAxisStillBusy a pins i = true)
    (hwrap : stepAxisCount a i = a.counter i + a.stepNeed i) :
    (stepAxisStep a pins).busyFlag i = true ∧
      if a.masterStep ≤ a.counter i + a.stepNeed i then
        (stepAxisStep a pins).step i = a.step i + 1 ∧
          (stepAxisStep a pins).counter i = a.counter i + a.stepNeed i - a.masterStep ∧
          (stepAxisStep a pins).hardPos i = a.hardPos i + dirSign (a.dir i)
      else
        (stepAxisStep a pins).step i = a.step i ∧
          (stepAxisStep a pins).counter i = a.counter i + a.stepNeed i ∧
          (stepAxisStep a pins).hardPos i = a.hardPos i := by
  refine ⟨h, ?_⟩
  split
  · rename_i hpasses
    simp [stepAxisStep, stepAxisFires, h, hwrap, hpasses]
  · rename_i hpasses
    simp [stepAxisStep, stepAxisFires, h, hwrap, hpasses]

/-- What `calls` counted calls have done to axis `i` of the loaded motion `a`. -/
structure DdaAxis (a : StepAxis R) (calls : ℕ) (s : StepAxis R) (i : Axis) : Prop where
  step_eq : s.step i = min (calls : ℤ) a.masterStep * a.stepNeed i / a.masterStep
  counter_eq : s.counter i = min (calls : ℤ) a.masterStep * a.stepNeed i % a.masterStep
  hardPos_eq : s.hardPos i = a.hardPos i + dirSign (a.dir i) * s.step i

/-- The steps of a motion fit the analyser. -/
structure DdaFits (a : StepAxis R) : Prop where
  masterStep_pos : 1 ≤ a.masterStep
  masterStep_le : a.masterStep ≤ 2 ^ 30
  need_nonneg : ∀ i, 0 ≤ a.stepNeed i
  need_le : ∀ i, a.stepNeed i ≤ a.masterStep

theorem ddaSteps_lt_iff {M need : ℤ} {calls : ℕ} (hM : 1 ≤ M) (hneed : 0 < need) :
    min (calls : ℤ) M * need / M < need ↔ (calls : ℤ) < M := by
  rw [Int.ediv_lt_iff_lt_mul (by omega), mul_comm need M, mul_lt_mul_iff_of_pos_right hneed,
    min_lt_iff]
  simp

theorem DdaAxis.counter_bounds {a s : StepAxis R} {calls : ℕ} {i : Axis} (hfits : DdaFits a)
    (h : DdaAxis a calls s i) : 0 ≤ s.counter i ∧ s.counter i < a.masterStep := by
  have hM := hfits.masterStep_pos
  rw [h.counter_eq]
  exact ⟨Int.emod_nonneg _ (by omega), Int.emod_lt_of_pos _ (by omega)⟩

theorem DdaAxis.count_eq {a s : StepAxis R} {calls : ℕ} {i : Axis} (hfits : DdaFits a)
    (h : DdaAxis a calls s i) (hneed : s.stepNeed i = a.stepNeed i) :
    s.counter i + s.stepNeed i < 2 ^ 31 ∧
      stepAxisCount s i = s.counter i + s.stepNeed i := by
  obtain ⟨hlow, hhigh⟩ := h.counter_bounds hfits
  have hmaster := hfits.masterStep_le
  have hnonneg := hfits.need_nonneg i
  have hle := hfits.need_le i
  have hlt : s.counter i + s.stepNeed i < 2 ^ 31 := by
    rw [hneed]
    omega
  refine ⟨hlt, wrap32_of_bounds ?_ hlt⟩
  rw [hneed]
  omega

/-- The invariant of a run of calls, for axis `i` of the loaded motion `a`. -/
structure DdaInv (a : StepAxis R) (ticks : List DdaTick) (i : Axis) : Prop where
  axis : DdaAxis a (callsBefore a ticks i) (ddaRun a ticks) i
  busy_iff : (ddaRun a ticks).busyFlag i = true ↔
    0 < a.stepNeed i ∧ callsBefore a ticks i = ticks.length ∧
      (callsBefore a ticks i : ℤ) ≤ a.masterStep

theorem stillBusy_of_not_busy {a : StepAxis R} {pins : TriggerPins} {i : Axis}
    (h : ¬ a.busyFlag i = true) : stepAxisStillBusy a pins i = false := by
  simp [stepAxisStillBusy, h]

theorem stillBusy_of_done {a : StepAxis R} {pins : TriggerPins} {i : Axis}
    (h : a.stepNeed i ≤ a.step i) : stepAxisStillBusy a pins i = false := by
  simp [stepAxisStillBusy, h]

/-- An axis with steps left goes on unless the call stops it. -/
theorem stillBusy_withTrigger {a : StepAxis R} {t : DdaTick} {i : Axis}
    (hbusy : a.busyFlag i = true) (hlt : a.step i < a.stepNeed i) :
    stepAxisStillBusy (a.withTrigger t.enableTrigger) t.pins i = !a.stoppedBy t i :=
  stillBusy_eq (a := a.withTrigger t.enableTrigger) hbusy hlt

theorem stillBusy_of_stoppedBy {a : StepAxis R} {t : DdaTick} {i : Axis}
    (h : a.stoppedBy t i = true) :
    stepAxisStillBusy (a.withTrigger t.enableTrigger) t.pins i = false := by
  by_cases hbusy : a.busyFlag i = true
  · by_cases hlt : a.step i < a.stepNeed i
    · rw [stillBusy_withTrigger hbusy hlt, h]
      rfl
    · exact stillBusy_of_done (not_lt.mp hlt)
  · exact stillBusy_of_not_busy hbusy

/-- A call that leaves the axis alone, as long as no steps were due in it. -/
theorem DdaInv.rest {a : StepAxis R} {ticks : List DdaTick} {i : Axis} (h : DdaInv a ticks i)
    {t : DdaTick}
    (hrest : stepAxisStillBusy ((ddaRun a ticks).withTrigger t.enableTrigger) t.pins i = false)
    (hsame : min (callsBefore a (ticks ++ [t]) i : ℤ) a.masterStep * a.stepNeed i =
      min (callsBefore a ticks i : ℤ) a.masterStep * a.stepNeed i)
    (hdone : ¬ (0 < a.stepNeed i ∧ callsBefore a (ticks ++ [t]) i = (ticks ++ [t]).length ∧
      (callsBefore a (ticks ++ [t]) i : ℤ) ≤ a.masterStep)) :
    DdaInv a (ticks ++ [t]) i := by
  obtain ⟨hbusy, hstep, hcounter, hhard⟩ := stepAxisStep_resting hrest
  refine ⟨⟨?_, ?_, ?_⟩, ?_⟩
  · rw [ddaRun_concat, hsame]
    exact hstep.trans h.axis.step_eq
  · rw [ddaRun_concat, hsame]
    exact hcounter.trans h.axis.counter_eq
  · rw [ddaRun_concat]
    refine hhard.trans (h.axis.hardPos_eq.trans ?_)
    exact congrArg (a.hardPos i + dirSign (a.dir i) * ·) hstep.symm
  · rw [ddaRun_concat]
    exact iff_of_false (ne_true_of_eq_false hbusy) hdone

/-- A call in which the axis counts, before all its steps have been made. -/
theorem DdaAxis.tick {a s : StepAxis R} (hfits : DdaFits a) {calls : ℕ} {i : Axis}
    (h : DdaAxis a calls s i) (hmaster : s.masterStep = a.masterStep)
    (hneed : s.stepNeed i = a.stepNeed i) (hdir : s.dir = a.dir)
    (hlt : (calls : ℤ) < a.masterStep) {t : DdaTick}
    (hstill : stepAxisStillBusy (s.withTrigger t.enableTrigger) t.pins i = true) :
    (ddaTick s t).busyFlag i = true ∧ DdaAxis a (calls + 1) (ddaTick s t) i := by
  have hM : 0 < a.masterStep := hfits.masterStep_pos
  obtain ⟨hbusy, hcount⟩ := stepAxisStep_counting hstill (h.count_eq hfits hneed).2
  have hmin : min ((calls + 1 : ℕ) : ℤ) a.masterStep = calls + 1 := by
    rw [Nat.cast_succ]
    exact min_eq_left hlt
  have hsum : ((calls : ℤ) + 1) * a.stepNeed i = calls * a.stepNeed i + a.stepNeed i := by ring
  have hstep := h.step_eq
  have hcounter := h.counter_eq
  rw [min_eq_left hlt.le] at hstep hcounter
  have hhard := h.hardPos_eq
  refine ⟨hbusy, ?_⟩
  -- both branches of the comparison are one addition to the product
  split at hcount
  · rename_i hcarry
    obtain ⟨hstep', hcounter', hhard'⟩ := hcount
    change (ddaTick s t).step i = s.step i + 1 at hstep'
    change (ddaTick s t).counter i = s.counter i + s.stepNeed i - s.masterStep at hcounter'
    change (ddaTick s t).hardPos i = s.hardPos i + dirSign (s.dir i) at hhard'
    change s.masterStep ≤ s.counter i + s.stepNeed i at hcarry
    rw [hmaster, hcounter, hneed] at hcarry
    obtain ⟨hdiv, hmod⟩ := ediv_add_of_carry hM (hfits.need_le i) hcarry
    refine ⟨?_, ?_, ?_⟩
    · calc (ddaTick s t).step i = calls * a.stepNeed i / a.masterStep + 1 := by rw [hstep', hstep]
        _ = _ := by rw [hmin, hsum, hdiv]
    · calc (ddaTick s t).counter i
          = calls * a.stepNeed i % a.masterStep + a.stepNeed i - a.masterStep := by
            rw [hcounter', hcounter, hneed, hmaster]
        _ = _ := by rw [hmin, hsum, hmod]
    · calc (ddaTick s t).hardPos i
          = a.hardPos i + dirSign (a.dir i) * s.step i + dirSign (a.dir i) := by
            rw [hhard', hhard, hdir]
        _ = a.hardPos i + dirSign (a.dir i) * (s.step i + 1) := by ring
        _ = _ := by rw [hstep']
  · rename_i hcarry
    obtain ⟨hstep', hcounter', hhard'⟩ := hcount
    change (ddaTick s t).step i = s.step i at hstep'
    change (ddaTick s t).counter i = s.counter i + s.stepNeed i at hcounter'
    change (ddaTick s t).hardPos i = s.hardPos i at hhard'
    change ¬ s.masterStep ≤ s.counter i + s.stepNeed i at hcarry
    rw [hmaster, hcounter, hneed, not_le] at hcarry
    obtain ⟨hdiv, hmod⟩ := ediv_add_of_no_carry hM (hfits.need_nonneg i) hcarry
    refine ⟨?_, ?_, ?_⟩
    · calc (ddaTick s t).step i = calls * a.stepNeed i / a.masterStep := by rw [hstep', hstep]
        _ = _ := by rw [hmin, hsum, hdiv]
    · calc (ddaTick s t).counter i
          = calls * a.stepNeed i % a.masterStep + a.stepNeed i := by
            rw [hcounter', hcounter, hneed]
        _ = _ := by rw [hmin, hsum, hmod]
    · rw [hhard', hstep', hhard]

theorem DdaInv.count {a : StepAxis R} (hfits : DdaFits a) {ticks : List DdaTick} {i : Axis}
    (h : DdaInv a ticks i) (hcalls : callsBefore a ticks i = ticks.length)
    (hneed : 0 < a.stepNeed i) (hlt : (ticks.length : ℤ) < a.masterStep) {t : DdaTick}
    (hfree : a.stoppedBy t i = false) : DdaInv a (ticks ++ [t]) i := by
  have hcalls' := callsBefore_concat_of_eq hcalls hfree
  obtain ⟨-, -, hdir, hneed_eq, hmaster⟩ := ddaRun_frame a ticks
  have haxis := h.axis
  rw [hcalls] at haxis
  have hbusy : (ddaRun a ticks).busyFlag i = true :=
    h.busy_iff.mpr ⟨hneed, hcalls, by rw [hcalls]; exact hlt.le⟩
  have hmissing : (ddaRun a ticks).step i < (ddaRun a ticks).stepNeed i := by
    rw [haxis.step_eq, hneed_eq]
    exact (ddaSteps_lt_iff hfits.masterStep_pos hneed).mpr hlt
  have hstill :
      stepAxisStillBusy ((ddaRun a ticks).withTrigger t.enableTrigger) t.pins i = true := by
    rw [stillBusy_withTrigger hbusy hmissing, stoppedBy_ddaRun, hfree]
    rfl
  obtain ⟨hbusy', haxis'⟩ :=
    haxis.tick hfits hmaster (congrFun hneed_eq i) hdir hlt hstill
  refine ⟨?_, ?_⟩
  · rw [ddaRun_concat, hcalls']
    exact haxis'
  · rw [ddaRun_concat]
    refine iff_of_true hbusy' ⟨hneed, ?_, ?_⟩
    · rw [hcalls', List.length_append, List.length_singleton]
    · rw [hcalls', Nat.cast_succ]
      exact hlt

/-- A call that finds all steps made, or none to make. -/
theorem DdaInv.done {a : StepAxis R} (hfits : DdaFits a) {ticks : List DdaTick} {i : Axis}
    (h : DdaInv a ticks i) (hcalls : callsBefore a ticks i = ticks.length) {t : DdaTick}
    (hfree : a.stoppedBy t i = false)
    (hdone : a.stepNeed i = 0 ∨ a.masterStep ≤ (ticks.length : ℤ)) :
    DdaInv a (ticks ++ [t]) i := by
  have hcalls' := callsBefore_concat_of_eq hcalls hfree
  refine h.rest ?_ ?_ ?_
  · by_cases hbusy : (ddaRun a ticks).busyFlag i = true
    · obtain ⟨hneed, -, -⟩ := h.busy_iff.mp hbusy
      have hge : a.masterStep ≤ (callsBefore a ticks i : ℤ) := by
        rw [hcalls]
        exact hdone.resolve_left hneed.ne'
      apply stillBusy_of_done
      change (ddaRun a ticks).stepNeed i ≤ (ddaRun a ticks).step i
      rw [congrFun (ddaRun_frame a ticks).2.2.2.1 i, h.axis.step_eq, ← not_lt,
        ddaSteps_lt_iff hfits.masterStep_pos hneed, not_lt]
      exact hge
    · exact stillBusy_of_not_busy hbusy
  · rw [hcalls, hcalls']
    rcases hdone with hneed | hge
    · rw [hneed, mul_zero, mul_zero]
    · rw [min_eq_right hge, min_eq_right (by push_cast; omega)]
  · rw [hcalls']
    push_cast
    omega

theorem DdaInv.concat {a : StepAxis R} (hfits : DdaFits a) {ticks : List DdaTick} {i : Axis}
    (h : DdaInv a ticks i) (t : DdaTick) : DdaInv a (ticks ++ [t]) i := by
  rcases (callsBefore_le a ticks i).lt_or_eq with hearlier | hcalls
  · -- the axis was stopped in an earlier call
    have hsame := callsBefore_concat_of_lt hearlier t
    have hidle : ¬ (ddaRun a ticks).busyFlag i = true := by
      rw [h.busy_iff]
      exact fun hbusy => hearlier.ne hbusy.2.1
    refine h.rest (stillBusy_of_not_busy hidle) (by rw [hsame]) ?_
    rw [hsame, List.length_append, List.length_singleton]
    omega
  · by_cases hstopped : a.stoppedBy t i = true
    · have hsame : callsBefore a (ticks ++ [t]) i = callsBefore a ticks i :=
        callsBefore_append_of_stopped hstopped []
      refine h.rest (stillBusy_of_stoppedBy ((stoppedBy_ddaRun a ticks t i).trans hstopped))
        (by rw [hsame]) ?_
      rw [hsame, hcalls, List.length_append, List.length_singleton]
      omega
    · have hfree := Bool.eq_false_iff.mpr hstopped
      rcases (hfits.need_nonneg i).eq_or_lt with hnone | hneed
      · exact h.done hfits hcalls hfree (Or.inl hnone.symm)
      · rcases lt_or_ge (ticks.length : ℤ) a.masterStep with hlt | hge
        · exact h.count hfits hcalls hneed hlt hfree
        · exact h.done hfits hcalls hfree (Or.inr hge)

/-! ## The whole motion -/

/-- What any number of calls have done to the motion loaded with `stepAxis_reload`. -/
structure DdaExact (a : StepAxis R) (ticks : List DdaTick) : Prop where
  /-- an axis that no switch has stopped -/
  steps : ∀ i, (∀ t ∈ ticks, a.stoppedBy t i = false) →
    (ddaRun a ticks).step i = min (ticks.length : ℤ) a.masterStep * a.stepNeed i / a.masterStep
  /-- an axis that a switch has stopped, and what the others do is not in the formula -/
  stopped : ∀ i before t after, ticks = before ++ t :: after → a.stoppedBy t i = true →
    (ddaRun a ticks).step i = (ddaRun a before).step i
  hardPos : ∀ i,
    (ddaRun a ticks).hardPos i = a.hardPos i + dirSign (a.dir i) * (ddaRun a ticks).step i
  counter : ∀ i, 0 ≤ (ddaRun a ticks).counter i ∧ (ddaRun a ticks).counter i < a.masterStep
  no_overflow : ∀ i, (ddaRun a ticks).counter i + (ddaRun a ticks).stepNeed i < 2 ^ 31
  finished : a.masterStep + 1 ≤ ticks.length → stepAxisIsBusy (ddaRun a ticks) = false

theorem reload_ddaInv (a : StepAxis R) {M : ℤ} {need : Axis → ℤ} (dir : Axis → Bool)
    (hfits : DdaFits (stepAxisReload a M need dir)) (ticks : List DdaTick) (i : Axis) :
    DdaInv (stepAxisReload a M need dir) ticks i := by
  induction ticks using List.reverseRecOn with
  | nil =>
      have hM : 1 ≤ M := hfits.masterStep_pos
      have hmin : min (0 : ℤ) M = 0 := min_eq_left (by omega)
      refine ⟨⟨?_, ?_, ?_⟩, ?_⟩
      · simp [callsBefore, hmin, stepAxisReload]
      · simp [callsBefore, hmin, stepAxisReload]
      · simp [stepAxisReload]
      · constructor
        · intro hbusy
          exact ⟨of_decide_eq_true hbusy, rfl, zero_le_one.trans hM⟩
        · exact fun hneed => decide_eq_true hneed.1
  | append_singleton ticks t ih => exact ih.concat hfits t

/-- The analyser is exact: for every motion with at most 2^30 master steps and no more
steps on any axis, whatever the switches do. -/
theorem dda_exact (a : StepAxis R) {M : ℤ} (hM : 1 ≤ M) (hM' : M ≤ 2 ^ 30) {need : Axis → ℤ}
    (hneed : ∀ i, 0 ≤ need i ∧ need i ≤ M) (dir : Axis → Bool) (ticks : List DdaTick) :
    DdaExact (stepAxisReload a M need dir) ticks := by
  have hfits : DdaFits (stepAxisReload a M need dir) :=
    ⟨hM, hM', fun i => (hneed i).1, fun i => (hneed i).2⟩
  have hinv := reload_ddaInv a dir hfits
  refine ⟨?_, ?_, ?_, ?_, ?_, ?_⟩
  · intro i hfree
    rw [(hinv ticks i).axis.step_eq, callsBefore_eq_length hfree]
  · rintro i before t after rfl hstopped
    rw [(hinv _ i).axis.step_eq, (hinv before i).axis.step_eq,
      callsBefore_append_of_stopped hstopped]
  · exact fun i => (hinv ticks i).axis.hardPos_eq
  · exact fun i => (hinv ticks i).axis.counter_bounds hfits
  · intro i
    exact ((hinv ticks i).axis.count_eq hfits (congrFun (ddaRun_frame _ ticks).2.2.2.1 i)).1
  · intro hlate
    refine isBusy_eq_false_iff.mpr fun i => Bool.eq_false_iff.mpr fun hbusy => ?_
    obtain ⟨-, hcalls, hle⟩ := (hinv ticks i).busy_iff.mp hbusy
    rw [hcalls] at hle
    omega

/-- Three steps in five master steps, and a switch at the far end of X pressed in the
third call. -/
theorem dda_exact_fiveSteps :
    (1 : ℤ) ≤ 5 ∧ DdaExact (stepAxisReload (stepAxisInit : StepAxis ℚ) 5
      (fun i => if i = 0 then 5 else 3) fun _ => true)
      [⟨true, ⟨fun _ => false, fun _ => false⟩⟩, ⟨true, ⟨fun _ => false, fun _ => false⟩⟩,
        ⟨true, ⟨fun _ => true, fun _ => false⟩⟩] :=
  ⟨by decide, dda_exact _ (by decide) (by decide) (by decide) _ _⟩

end

end TdPrinter
