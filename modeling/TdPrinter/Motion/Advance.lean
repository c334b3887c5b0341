import TdPrinter.Foundation.Machine
import TdPrinter.Motion.StepAxis

/-!
# The pressure advance of the extruder

The steps of the extruder are not sent to its motor at once.  `stepAxis_step` and
`stepAxis_applyAdvance` add them to `extruderStep`, and `stepAxis_AdvanceISR`, an
interrupt of its own, sends them one by one.  The advance is a distance that the
motor is to be ahead of `hardPos`; `currentAdvance` is the whole number of steps that
it has been told to be ahead.

`Extruder.Conserved` says that no step is lost or made twice in between: what the
motor has done and what is still owed to it is the movement of `hardPos` and of
`currentAdvance`.
-/

namespace TdPrinter

section

variable {R : Type*}

/-- `stepAxis_AdvanceISR`: the axes, and the signed pulse sent to the motor. -/
def stepAxisAdvanceISR (a : StepAxis R) : StepAxis R × ℤ :=
  if a.extruderStep > 0 then ({ a with extruderStep := a.extruderStep - 1 }, 1)
  else if a.extruderStep < 0 then ({ a with extruderStep := a.extruderStep + 1 }, -1)
  else (a, 0)

theorem advanceISR_spec (a : StepAxis R) :
    (stepAxisAdvanceISR a).2 + (stepAxisAdvanceISR a).1.extruderStep = a.extruderStep ∧
      (stepAxisAdvanceISR a).1.hardPos = a.hardPos ∧
      (stepAxisAdvanceISR a).1.currentAdvance = a.currentAdvance := by
  unfold stepAxisAdvanceISR
  split
  · exact ⟨by simp, rfl, rfl⟩
  · split
    · exact ⟨by simp, rfl, rfl⟩
    · exact ⟨by simp, rfl, rfl⟩

theorem step_extruder (a : StepAxis R) (pins : TriggerPins) :
    (stepAxisStep a pins).extruderStep - a.extruderStep =
      (stepAxisStep a pins).hardPos 2 - a.hardPos 2 := by
  simp only [stepAxisStep]
  split <;> ring

end

/-! ## Runs -/

/-- The axes, and what the motor of the extruder has got to see of them. -/
structure Extruder (R : Type*) where
  axis : StepAxis R
  /-- the net signed pulses that the motor has got -/
  pulses : ℤ
  /-- the advance that was asked for last, limited to 300 steps -/
  asked : Option R
  /-- the last value that was converted to `int32_t` -/
  converted : ℤ

/-- The calls that concern the extruder, and `enableTrigger`. -/
inductive ExtruderAction (R : Type*)
  | reload (masterStep : ℤ) (step : Axis → ℤ) (dir : Axis → Bool)
  | setTrigger (on : Bool)
  | step (pins : TriggerPins)
  | setAdvance (advance : R)
  | advanceISR

section

variable {R : Type*} [Field R] [LinearOrder R] [FloorRing R]

/-- One call.  An advance beyond 2^29 steps could not be converted. -/
def Extruder.step (s : Extruder R) : ExtruderAction R → Option (Extruder R)
  | .reload masterStep step dir =>
      some { s with axis := stepAxisReload s.axis masterStep step dir }
  | .setTrigger on => some { s with axis := { s.axis with enableTrigger := on } }
  | .step pins => some { s with axis := stepAxisStep s.axis pins }
  | .setAdvance advance =>
      if |advance| < 2 ^ 29 then
        some { s with
          axis := stepAxisSetAdvance s.axis advance
          asked := some (min advance 300)
          converted := ⌈min advance 300 - s.axis.currentAdvance⌉ }
      else none
  | .advanceISR =>
      let r := stepAxisAdvanceISR s.axis
      some { s with axis := r.1, pulses := s.pulses + r.2 }

variable (R) in
def extruder : Machine (Extruder R) (ExtruderAction R) := ⟨Extruder.step⟩

omit [Field R] [LinearOrder R] [FloorRing R] in
/-- The extruder at the beginning, before any advance has been asked for. -/
def Extruder.start (a : StepAxis R) : Extruder R := ⟨a, 0, none, 0⟩

/-- What a run that began with the axes `a` conserves. -/
structure Extruder.Conserved (a : StepAxis R) (s : Extruder R) : Prop where
  conserved : ((s.pulses + s.axis.extruderStep - a.extruderStep : ℤ) : R) =
    ((s.axis.hardPos 2 - a.hardPos 2 : ℤ) : R) + (s.axis.currentAdvance - a.currentAdvance)
  advanced : ∀ v ∈ s.asked, v ≤ s.axis.currentAdvance ∧ s.axis.currentAdvance < v + 1
  /-- with nothing left to send, the motor is where `hardPos` says, ahead by the
  rounded advance -/
  drained : s.axis.extruderStep = 0 → ∀ n : ℤ, a.currentAdvance = n → ∀ v ∈ s.asked,
    s.pulses - a.extruderStep = s.axis.hardPos 2 - a.hardPos 2 + (⌈v⌉ - n)
  /-- the conversion of the advance to `int32_t` does not overflow -/
  fits : |a.currentAdvance| ≤ 2 ^ 29 → |s.converted| < 2 ^ 31

structure Extruder.Inv (a : StepAxis R) (s : Extruder R) : Prop where
  conserved : ((s.pulses + s.axis.extruderStep - a.extruderStep : ℤ) : R) =
    ((s.axis.hardPos 2 - a.hardPos 2 : ℤ) : R) + (s.axis.currentAdvance - a.currentAdvance)
  advanced : ∀ v ∈ s.asked, v ≤ s.axis.currentAdvance ∧ s.axis.currentAdvance < v + 1
  /-- the advance has only been changed by whole steps -/
  whole : ∃ k : ℤ, s.axis.currentAdvance = a.currentAdvance + k
  bounded : |a.currentAdvance| ≤ 2 ^ 29 → |s.axis.currentAdvance| ≤ 2 ^ 29 + 1
  fits : |a.currentAdvance| ≤ 2 ^ 29 → |s.converted| < 2 ^ 31

omit [FloorRing R] in
theorem limited_eq_min (advance : R) :
    (if advance > 300 then 300 else advance) = min advance 300 := by
  split
  · rename_i hlarge
    exact (min_eq_right hlarge.le).symm
  · rename_i hsmall
    exact (min_eq_left (not_lt.mp hsmall)).symm

/-- `stepAxis_setAdvance` adds the same whole number to the debt and to the advance. -/
theorem setAdvance_spec (a : StepAxis R) (advance : R) :
    (stepAxisSetAdvance a advance).hardPos = a.hardPos ∧
      (stepAxisSetAdvance a advance).extruderStep =
        a.extruderStep + ⌈min advance 300 - a.currentAdvance⌉ ∧
      (stepAxisSetAdvance a advance).currentAdvance =
        a.currentAdvance + (⌈min advance 300 - a.currentAdvance⌉ : ℤ) := by
  simp [stepAxisSetAdvance, stepAxisApplyAdvance, limited_eq_min]

variable [IsStrictOrderedRing R]

theorem Extruder.Inv.conserves {a : StepAxis R} {s : Extruder R} (h : s.Inv a) :
    s.Conserved a := by
  refine ⟨h.conserved, h.advanced, ?_, h.fits⟩
  intro hdrained n hn v hv
  obtain ⟨k, hk⟩ := h.whole
  obtain ⟨hle, hlt⟩ := h.advanced v hv
  have hcurrent : s.axis.currentAdvance = ((n + k : ℤ) : R) := by
    rw [hk, hn, Int.cast_add]
  have hceil : ⌈v⌉ = n + k := by
    rw [hcurrent] at hle hlt
    rw [Int.ceil_eq_iff]
    exact ⟨sub_lt_iff_lt_add.mpr hlt, hle⟩
  have hsum := h.conserved
  rw [hdrained, hcurrent, hn] at hsum
  rw [hceil]
  have hint : s.pulses + 0 - a.extruderStep =
      s.axis.hardPos 2 - a.hardPos 2 + (n + k - n) := by
    exact_mod_cast hsum
  omega

/-- A new advance is rounded up to a whole number of steps from the old one. -/
theorem round_up (current v : R) :
    v ≤ current + (⌈v - current⌉ : ℤ) ∧ current + (⌈v - current⌉ : ℤ) < v + 1 := by
  have hle := Int.le_ceil (v - current)
  have hlt := Int.ceil_lt_add_one (v - current)
  constructor <;> linarith

theorem Extruder.Inv.setAdvance {a : StepAxis R} {s : Extruder R} (h : s.Inv a) {advance : R}
    (hsmall : |advance| < 2 ^ 29) :
    Extruder.Inv a { s with
      axis := stepAxisSetAdvance s.axis advance
      asked := some (min advance 300)
      converted := ⌈min advance 300 - s.axis.currentAdvance⌉ } := by
  obtain ⟨hhard, hextruder, hcurrent⟩ := setAdvance_spec s.axis advance
  obtain ⟨hle, hlt⟩ := round_up s.axis.currentAdvance (min advance 300)
  obtain ⟨hlow, hhigh⟩ := abs_lt.mp hsmall
  have hmin : -2 ^ 29 < min advance 300 := lt_min hlow (by norm_num)
  have hmin' : min advance 300 < 2 ^ 29 := (min_le_left _ _).trans_lt hhigh
  refine ⟨?_, ?_, ?_, ?_, ?_⟩
  · have hsum := h.conserved
    simp only [hhard, hextruder, hcurrent]
    push_cast at hsum ⊢
    linarith
  · intro v hv
    obtain rfl := Option.some_inj.mp hv
    simp only [hcurrent]
    exact ⟨hle, hlt⟩
  · obtain ⟨k, hk⟩ := h.whole
    refine ⟨k + ⌈min advance 300 - s.axis.currentAdvance⌉, ?_⟩
    simp only [hcurrent, hk]
    push_cast
    ring
  · intro _
    simp only [hcurrent]
    rw [abs_le]
    constructor <;> linarith
  · intro ha
    obtain ⟨hcur, hcur'⟩ := abs_le.mp (h.bounded ha)
    have hbelow : ⌈min advance 300 - s.axis.currentAdvance⌉ ≤ 2 ^ 30 + 1 := by
      rw [Int.ceil_le]
      push_cast
      linarith
    have habove : -(2 ^ 30 + 1) ≤ ⌈min advance 300 - s.axis.currentAdvance⌉ := by
      have hceil := Int.le_ceil (min advance 300 - s.axis.currentAdvance)
      have hcast : ((-(2 ^ 30 + 1) : ℤ) : R) ≤
          (⌈min advance 300 - s.axis.currentAdvance⌉ : ℤ) := by
        push_cast
        linarith
      exact_mod_cast hcast
    show |⌈min advance 300 - s.axis.currentAdvance⌉| < 2 ^ 31
    rw [abs_lt]
    omega

theorem Extruder.Inv.step {a : StepAxis R} {s t : Extruder R} {act : ExtruderAction R}
    (h : s.Inv a) (hstep : s.step act = some t) : t.Inv a := by
  cases act with
  | reload masterStep step dir =>
      obtain rfl := Option.some_inj.mp hstep
      exact ⟨h.conserved, h.advanced, h.whole, h.bounded, h.fits⟩
  | setTrigger on =>
      obtain rfl := Option.some_inj.mp hstep
      exact ⟨h.conserved, h.advanced, h.whole, h.bounded, h.fits⟩
  | step pins =>
      obtain rfl := Option.some_inj.mp hstep
      refine ⟨?_, h.advanced, h.whole, h.bounded, h.fits⟩
      have hmoved := step_extruder s.axis pins
      have hint : s.pulses + (stepAxisStep s.axis pins).extruderStep - a.extruderStep =
          s.pulses + s.axis.extruderStep - a.extruderStep +
            ((stepAxisStep s.axis pins).hardPos 2 - s.axis.hardPos 2) := by omega
      calc ((s.pulses + (stepAxisStep s.axis pins).extruderStep - a.extruderStep : ℤ) : R)
          = ((s.pulses + s.axis.extruderStep - a.extruderStep : ℤ) : R) +
              ((stepAxisStep s.axis pins).hardPos 2 - s.axis.hardPos 2 : ℤ) := by
            rw [hint, Int.cast_add]
        _ = ((s.axis.hardPos 2 - a.hardPos 2 : ℤ) : R) +
              (s.axis.currentAdvance - a.currentAdvance) +
              ((stepAxisStep s.axis pins).hardPos 2 - s.axis.hardPos 2 : ℤ) := by
            rw [h.conserved]
        _ = (((stepAxisStep s.axis pins).hardPos 2 - a.hardPos 2 : ℤ) : R) +
              (s.axis.currentAdvance - a.currentAdvance) := by
            push_cast
            ring
  | setAdvance advance =>
      obtain ⟨hsmall, rfl⟩ := Option.ite_some_none_eq_some.mp hstep
      exact h.setAdvance hsmall
  | advanceISR =>
      obtain rfl := Option.some_inj.mp hstep
      obtain ⟨hpulse, hhard, hcurrent⟩ := advanceISR_spec s.axis
      have hint : s.pulses + (stepAxisAdvanceISR s.axis).2 +
          (stepAxisAdvanceISR s.axis).1.extruderStep - a.extruderStep =
            s.pulses + s.axis.extruderStep - a.extruderStep := by omega
      refine ⟨?_, ?_, ?_, ?_, h.fits⟩
      · simp only [hint, hhard, hcurrent]
        exact h.conserved
      · simp only [hcurrent]
        exact h.advanced
      · simp only [hcurrent]
        exact h.whole
      · simp only [hcurrent]
        exact h.bounded

theorem Extruder.start_inv (a : StepAxis R) : (Extruder.start a).Inv a where
  conserved := by simp [Extruder.start]
  advanced := by simp [Extruder.start]
  whole := ⟨0, by simp [Extruder.start]⟩
  bounded h := h.trans (le_add_of_nonneg_right zero_le_one)
  fits _ := by norm_num [Extruder.start]

/-- No step of the extruder is lost or made twice, in any order of the calls. -/
theorem extruder_conserved (a : StepAxis R) (acts : List (ExtruderAction R)) :
    (extruder R).Always (Extruder.Conserved a) (Extruder.start a) acts :=
  Machine.always_of_allSteps (J := Extruder.Inv a) (C := fun _ _ => True) (fun _ h => h.conserves)
    (fun _ _ _ h hstep _ => h.step hstep) (Extruder.start_inv a) (Machine.allSteps_true _ acts)

end

/-- One step of the extruder, an advance of two and a half steps, and the four pulses
that send both to the motor. -/
theorem extruder_conserved_oneStep :
    (extruder ℚ).Always (Extruder.Conserved stepAxisInit) (Extruder.start stepAxisInit)
      [.reload 1 (fun i => if i = 2 then 1 else 0) fun _ => true,
        .step ⟨fun _ => false, fun _ => false⟩, .setAdvance (5 / 2), .advanceISR, .advanceISR,
        .advanceISR, .advanceISR] :=
  extruder_conserved _ _

end TdPrinter
