import Mathlib.Data.List.Basic

/-!
# Machines, runs and conditions on runs

A machine is a partial deterministic step function; all nondeterminism of a
system (which thread runs, what an input pin reads, how an I/O call ends) is put
into the actions.  Three notions of a run are used.

* `Reachable init guard` collects the states reached by steps that each meet
  `guard`.  With a trivial guard these are the reachable states of the system.
* `Always P s as` says that `P` holds in every state the schedule `as` passes
  through from `s`, and `AllSteps C s as` that every step it takes meets `C`.
  A schedule is followed up to the first action that is not enabled.
* `exec` follows a schedule and returns the last state.

The rules at the end are the only inductions over runs in the development: an
invariant is shown once for a step and then holds of every run.
-/

namespace TdPrinter

/-- A partial deterministic machine: `step s a = none` when `a` cannot be taken
in `s`. -/
structure Machine (State Action : Type*) where
  step : State → Action → Option State

namespace Machine

variable {State Action : Type*} (M : Machine State Action)

/-- The states reached from `init` by steps that meet `guard`. -/
inductive Reachable (init : State → Prop) (guard : State → Action → Prop) : State → Prop
  | initial {s : State} : init s → Reachable init guard s
  | step {s t : State} {a : Action} : Reachable init guard s → guard s a →
      M.step s a = some t → Reachable init guard t

/-- The last state of a schedule, if every action of it is enabled in turn. -/
def exec : State → List Action → Option State
  | s, [] => some s
  | s, a :: as => (M.step s a).bind fun t => exec t as

/-- `P` holds in every state that the schedule passes through. -/
def Always (P : State → Prop) : State → List Action → Prop
  | s, [] => P s
  | s, a :: as => P s ∧ ∀ t, M.step s a = some t → Always P t as

/-- Every step that the schedule takes meets `C`. -/
def AllSteps (C : State → Action → Prop) : State → List Action → Prop
  | _, [] => True
  | s, a :: as => ∀ t, M.step s a = some t → C s a ∧ AllSteps C t as

/-- `Q` holds of every step that the schedule takes, with the state it leads to. -/
def AllTransitions (Q : State → Action → State → Prop) : State → List Action → Prop
  | _, [] => True
  | s, a :: as => ∀ t, M.step s a = some t → Q s a t ∧ AllTransitions Q t as

/-- A condition on steps can be checked along a schedule. -/
instance decidableAllSteps {C : State → Action → Prop} [∀ s a, Decidable (C s a)] :
    ∀ (s : State) (as : List Action), Decidable (M.AllSteps C s as)
  | _, [] => isTrue trivial
  | s, a :: as =>
      match hstep : M.step s a with
      | none => isTrue fun t ht => by simp [hstep] at ht
      | some t =>
          haveI := decidableAllSteps (C := C) t as
          decidable_of_iff (C s a ∧ M.AllSteps C t as)
            ⟨fun h u hu => by rwa [Option.some.inj (hu.symm.trans hstep)], fun h => h t hstep⟩

variable {M} {init : State → Prop} {guard : State → Action → Prop}

/-- The invariant rule: what holds initially and is kept by every guarded step
holds of every reachable state. -/
theorem Reachable.invariant {I : State → Prop} (hinit : ∀ s, init s → I s)
    (hstep : ∀ s a t, I s → guard s a → M.step s a = some t → I t)
    {s : State} (h : M.Reachable init guard s) : I s := by
  induction h with
  | initial hs => exact hinit _ hs
  | step _ hguard hnext ih => exact hstep _ _ _ ih hguard hnext

theorem Reachable.exec {s t : State} {as : List Action}
    (h : M.Reachable init guard s) (hguard : ∀ u a, guard u a)
    (hexec : M.exec s as = some t) : M.Reachable init guard t := by
  induction as generalizing s with
  | nil =>
      obtain rfl : s = t := by simpa [Machine.exec] using hexec
      exact h
  | cons a as ih =>
      rw [Machine.exec, Option.bind_eq_some_iff] at hexec
      obtain ⟨u, hu, hrest⟩ := hexec
      exact ih (h.step (hguard s a) hu) hrest

theorem Always.head {P : State → Prop} {s : State} {as : List Action}
    (h : M.Always P s as) : P s := by
  cases as with
  | nil => exact h
  | cons a as => exact h.1

theorem Always.exec {P : State → Prop} {s t : State} {as : List Action}
    (h : M.Always P s as) (hexec : M.exec s as = some t) : P t := by
  induction as generalizing s with
  | nil =>
      obtain rfl : s = t := by simpa [Machine.exec] using hexec
      exact h
  | cons a as ih =>
      rw [Machine.exec, Option.bind_eq_some_iff] at hexec
      obtain ⟨u, hu, hrest⟩ := hexec
      exact ih (h.2 u hu) hrest

theorem exec_concat {s t : State} {as : List Action} (h : M.exec s as = some t) (a : Action) :
    M.exec s (as ++ [a]) = M.step t a := by
  induction as generalizing s with
  | nil =>
      obtain rfl : s = t := by simpa [Machine.exec] using h
      simp [Machine.exec]
  | cons b as ih =>
      rw [Machine.exec, Option.bind_eq_some_iff] at h
      obtain ⟨u, hu, hrest⟩ := h
      rw [List.cons_append, Machine.exec, hu]
      exact ih hrest

theorem AllTransitions.last {Q : State → Action → State → Prop} {s t u : State}
    {as : List Action} {a : Action} (h : M.AllTransitions Q s (as ++ [a]))
    (hexec : M.exec s as = some t) (hstep : M.step t a = some u) : Q t a u := by
  induction as generalizing s with
  | nil =>
      obtain rfl : s = t := by simpa [Machine.exec] using hexec
      exact (h u hstep).1
  | cons b as ih =>
      rw [Machine.exec, Option.bind_eq_some_iff] at hexec
      obtain ⟨v, hv, hrest⟩ := hexec
      exact ih (h v hv).2 hrest

/-- Where every action is enabled and keeps `I`, every schedule can be followed. -/
theorem exec_total {I : State → Prop} (hstep : ∀ s a, I s → ∃ t, M.step s a = some t ∧ I t)
    {s : State} (hs : I s) (as : List Action) : ∃ t, M.exec s as = some t ∧ I t := by
  induction as generalizing s with
  | nil => exact ⟨s, rfl, hs⟩
  | cons a as ih =>
      obtain ⟨u, hu, hIu⟩ := hstep s a hs
      obtain ⟨t, ht, hIt⟩ := ih hIu
      exact ⟨t, by rw [Machine.exec, hu]; exact ht, hIt⟩

theorem allSteps_of_forall {C : State → Action → Prop} {as : List Action}
    (h : ∀ a ∈ as, ∀ s, C s a) (s : State) : M.AllSteps C s as := by
  induction as generalizing s with
  | nil => trivial
  | cons a as ih =>
      intro t _
      exact ⟨h a List.mem_cons_self s, ih (fun b hb => h b (List.mem_cons_of_mem _ hb)) t⟩

theorem allSteps_true (s : State) (as : List Action) : M.AllSteps (fun _ _ => True) s as := by
  induction as generalizing s with
  | nil => trivial
  | cons a as ih => exact fun t _ => ⟨trivial, ih t⟩

section Rules

variable {J P : State → Prop} {C : State → Action → Prop}

/-- If every step that meets `C` keeps `J`, and `J` gives `P`, then a schedule
whose steps all meet `C` only passes through states with `P`. -/
theorem always_of_allSteps (hP : ∀ s, J s → P s)
    (hkeep : ∀ s a t, J s → M.step s a = some t → C s a → J t)
    {s : State} (hs : J s) {as : List Action} (h : M.AllSteps C s as) : M.Always P s as := by
  induction as generalizing s with
  | nil => exact hP s hs
  | cons a as ih =>
      refine ⟨hP s hs, ?_⟩
      intro t ht
      obtain ⟨hC, hrest⟩ := h t ht
      exact ih (hkeep s a t hs ht hC) hrest

/-- If moreover every step that misses `C` leads to a state without `P`, then
`C` is the exact condition: the schedules that keep `P` throughout are those
whose steps all meet `C`.  Both only have to hold of steps that meet `G`, for
schedules that do. -/
theorem always_iff_allSteps_of_guard {G : State → Action → Prop} (hP : ∀ s, J s → P s)
    (hkeep : ∀ s a t, J s → M.step s a = some t → G s a → C s a → J t)
    (hbreak : ∀ s a t, J s → M.step s a = some t → G s a → ¬ C s a → ¬ P t)
    {s : State} (hs : J s) {as : List Action} (hG : M.AllSteps G s as) :
    M.Always P s as ↔ M.AllSteps C s as := by
  induction as generalizing s with
  | nil => exact ⟨fun _ => trivial, fun _ => hP s hs⟩
  | cons a as ih =>
      constructor
      · intro h t ht
        obtain ⟨hguard, hrest⟩ := hG t ht
        have hC : C s a := by
          by_contra hmiss
          exact hbreak s a t hs ht hguard hmiss (h.2 t ht).head
        exact ⟨hC, (ih (hkeep s a t hs ht hguard hC) hrest).mp (h.2 t ht)⟩
      · intro h
        refine ⟨hP s hs, ?_⟩
        intro t ht
        obtain ⟨hguard, hrest⟩ := hG t ht
        obtain ⟨hC, hall⟩ := h t ht
        exact (ih (hkeep s a t hs ht hguard hC) hrest).mpr hall

theorem always_iff_allSteps (hP : ∀ s, J s → P s)
    (hkeep : ∀ s a t, J s → M.step s a = some t → C s a → J t)
    (hbreak : ∀ s a t, J s → M.step s a = some t → ¬ C s a → ¬ P t)
    {s : State} (hs : J s) (as : List Action) : M.Always P s as ↔ M.AllSteps C s as :=
  always_iff_allSteps_of_guard hP (fun s a t h hstep _ => hkeep s a t h hstep)
    (fun s a t h hstep _ => hbreak s a t h hstep) hs (allSteps_true s as)

/-- A property of steps that under an invariant is a condition on the state before. -/
theorem allTransitions_iff_allSteps {Q : State → Action → State → Prop}
    (hkeep : ∀ s a t, J s → M.step s a = some t → J t)
    (hiff : ∀ s a t, J s → M.step s a = some t → (Q s a t ↔ C s a)) {s : State} (hs : J s)
    (as : List Action) : M.AllTransitions Q s as ↔ M.AllSteps C s as := by
  induction as generalizing s with
  | nil => exact Iff.rfl
  | cons a as ih =>
      constructor
      · intro h t ht
        exact ⟨(hiff s a t hs ht).mp (h t ht).1, (ih (hkeep s a t hs ht)).mp (h t ht).2⟩
      · intro h t ht
        exact ⟨(hiff s a t hs ht).mpr (h t ht).1, (ih (hkeep s a t hs ht)).mpr (h t ht).2⟩

end Rules

end Machine

end TdPrinter
