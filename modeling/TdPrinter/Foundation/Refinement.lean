import Mathlib.Data.List.Basic

/-!
# Devices and refinement

A device answers operations.  Its step function is partial: `none` is a step that would
leave the memory it may use.  What a device is for is said by a total one,
`spec : Abstract → Op → Out × Abstract`.  `Refines D spec R` says that a step of `D`
is always possible where `R` relates its state to one of `spec`, gives the same answer,
and leads to related states; `Refines.run` is the same of every sequence of operations.
-/

namespace TdPrinter

/-- A device with a partial step function. -/
structure Device (State Op Out : Type*) where
  step : State → Op → Option (Out × State)

variable {State Abstract Op Out : Type*}

/-- The answers to a sequence of operations, and the last state. -/
def Device.run (D : Device State Op Out) : State → List Op → Option (List Out × State)
  | s, [] => some ([], s)
  | s, op :: ops =>
      (D.step s op).bind fun r => (D.run r.2 ops).map fun q => (r.1 :: q.1, q.2)

/-- The answers of a total device to a sequence of operations, and its last state. -/
def specRun (spec : Abstract → Op → Out × Abstract) : Abstract → List Op → List Out × Abstract
  | a, [] => ([], a)
  | a, op :: ops =>
      let r := spec a op
      let q := specRun spec r.2 ops
      (r.1 :: q.1, q.2)

/-- Forward simulation of a total device. -/
def Refines (D : Device State Op Out) (spec : Abstract → Op → Out × Abstract)
    (R : State → Abstract → Prop) : Prop :=
  ∀ s a op, R s a → ∃ t, D.step s op = some ((spec a op).1, t) ∧ R t (spec a op).2

theorem Refines.run {D : Device State Op Out} {spec : Abstract → Op → Out × Abstract}
    {R : State → Abstract → Prop} (h : Refines D spec R) {s : State} {a : Abstract}
    (hs : R s a) (ops : List Op) :
    ∃ t, D.run s ops = some ((specRun spec a ops).1, t) ∧ R t (specRun spec a ops).2 := by
  induction ops generalizing s a with
  | nil => exact ⟨s, rfl, hs⟩
  | cons op ops ih =>
      obtain ⟨t, hstep, ht⟩ := h s a op hs
      obtain ⟨u, hrun, hu⟩ := ih ht
      refine ⟨u, ?_, hu⟩
      simp [Device.run, hstep, hrun, specRun]

end TdPrinter
