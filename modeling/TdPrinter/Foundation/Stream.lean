import Mathlib.Data.List.Induction
import TdPrinter.Foundation.Machine

/-!
# Machines that read a stream

The actions of a receiver are what arrives.  `exec_history` is the rule for invariants that
speak of everything received so far; `exec_chunks` is the rule for a stream of frames, each of
which finds the receiver idle and leaves it so.
-/

namespace TdPrinter

namespace Machine

variable {State Action : Type*} {M : Machine State Action}

theorem exec_append {s t : State} {as : List Action} (h : M.exec s as = some t)
    (bs : List Action) : M.exec s (as ++ bs) = M.exec t bs := by
  induction as generalizing s with
  | nil =>
      obtain rfl : s = t := by simpa [Machine.exec] using h
      rfl
  | cons a as ih =>
      rw [Machine.exec, Option.bind_eq_some_iff] at h
      obtain ⟨u, hu, hrest⟩ := h
      rw [List.cons_append, Machine.exec, hu]
      exact ih hrest

/-- If every action can be taken and extends what `J` says of the past, then every schedule can
be followed, and `J` holds of it. -/
theorem exec_history {J : List Action → State → Prop}
    (hstep : ∀ as s a, J as s → ∃ t, M.step s a = some t ∧ J (as ++ [a]) t)
    {s : State} (hs : J [] s) (as : List Action) : ∃ t, M.exec s as = some t ∧ J as t := by
  induction as using List.reverseRecOn with
  | nil => exact ⟨s, rfl, hs⟩
  | append_singleton as a ih =>
      obtain ⟨t, hexec, ht⟩ := ih
      obtain ⟨u, hu, hJ⟩ := hstep as t a ht
      exact ⟨u, (exec_concat hexec a).trans hu, hJ⟩

/-- If every frame is read from an idle state to an idle state, and changes `view` by `effect`,
then a sequence of frames is read, and changes it by their effects in order. -/
theorem exec_chunks {Chunk View : Type*} (bytes : Chunk → List Action) (Idle : State → Prop)
    (view : State → View) (effect : View → Chunk → View)
    (hchunk : ∀ s c, Idle s →
      ∃ t, M.exec s (bytes c) = some t ∧ Idle t ∧ view t = effect (view s) c)
    {s : State} (hs : Idle s) (cs : List Chunk) :
    ∃ t, M.exec s (cs.flatMap bytes) = some t ∧ Idle t ∧ view t = cs.foldl effect (view s) := by
  induction cs generalizing s with
  | nil => exact ⟨s, rfl, hs, rfl⟩
  | cons c cs ih =>
      obtain ⟨t, hexec, ht, hview⟩ := hchunk s c hs
      obtain ⟨u, hrest, hu, hviews⟩ := ih ht
      refine ⟨u, ?_, hu, ?_⟩
      · rw [List.flatMap_cons, exec_append hexec, hrest]
      · rw [hviews, hview, List.foldl_cons]

end Machine

/-- A byte that ends no line belongs to the last one. -/
theorem splitOn_concat_of_ne {α : Type*} [BEq α] [LawfulBEq α] {a c : α} (hc : c ≠ a)
    (l : List α) :
    (l ++ [c]).splitOn a =
      (l.splitOn a).dropLast ++ [(l.splitOn a).getLast (List.splitOn_ne_nil a l) ++ [c]] := by
  induction l with
  | nil =>
      have hne : (c == a) = false := by simpa using hc
      simp [List.splitOn_cons_eq_if_modifyHead, hne]
  | cons b l ih =>
      obtain ⟨first, rest, hsplit⟩ := List.exists_cons_of_ne_nil (List.splitOn_ne_nil a l)
      simp only [List.cons_append, List.splitOn_cons_eq_if_modifyHead, ih, hsplit]
      split
      · simp
      · cases rest with
        | nil => simp
        | cons r rs => simp

end TdPrinter
