import Mathlib.Algebra.Order.Ring.Defs
import Mathlib.Order.MinMax

/-!
# The strictest of several limits

A loop over several limits, each of which only counts under a condition, ends with the
least value among the one it started with and the limits that count.
-/

namespace TdPrinter

variable {ι α : Type*} [LinearOrder α] {p : ι → Prop} [DecidablePred p] {g : ι → α}

omit [LinearOrder α] in
/-- Two loops do the same if they take the same steps from values that both can reach. -/
theorem foldl_eq_of_invariant {f g : α → ι → α} {I : α → Prop}
    (h : ∀ x i, I x → f x i = g x i ∧ I (g x i)) (l : List ι) {init : α} (hinit : I init) :
    l.foldl f init = l.foldl g init := by
  induction l generalizing init with
  | nil => rfl
  | cons i l ih =>
      obtain ⟨heq, hnext⟩ := h init i hinit
      rw [List.foldl_cons, List.foldl_cons, heq]
      exact ih hnext

theorem foldl_limit_le_init (l : List ι) (init : α) :
    l.foldl (fun f i => if p i then min f (g i) else f) init ≤ init := by
  induction l generalizing init with
  | nil => exact le_rfl
  | cons i l ih =>
      refine (ih _).trans ?_
      dsimp only
      split
      · exact min_le_left _ _
      · exact le_rfl

theorem foldl_limit_le {l : List ι} {i : ι} (hi : i ∈ l) (hp : p i) (init : α) :
    l.foldl (fun f i => if p i then min f (g i) else f) init ≤ g i := by
  induction l generalizing init with
  | nil => simp at hi
  | cons j l ih =>
      rcases List.mem_cons.mp hi with rfl | hi
      · refine (foldl_limit_le_init l _).trans ?_
        dsimp only
        rw [if_pos hp]
        exact min_le_right _ _
      · exact ih hi _

/-- The result is the initial value or one of the limits that count. -/
theorem foldl_limit_cases (l : List ι) (init : α) :
    l.foldl (fun f i => if p i then min f (g i) else f) init = init ∨
      ∃ i ∈ l, p i ∧ l.foldl (fun f i => if p i then min f (g i) else f) init = g i := by
  induction l generalizing init with
  | nil => exact Or.inl rfl
  | cons j l ih =>
      rw [List.foldl_cons]
      rcases ih (if p j then min init (g j) else init) with h | ⟨i, hi, hp, h⟩
      · rw [h]
        split
        · rename_i hj
          rcases min_choice init (g j) with hmin | hmin
          · exact Or.inl hmin
          · exact Or.inr ⟨j, List.mem_cons_self, hj, hmin⟩
        · exact Or.inl rfl
      · exact Or.inr ⟨i, List.mem_cons_of_mem j hi, hp, h⟩

/-- A multiple of the result is small enough exactly if one of the values makes it so. -/
theorem foldl_limit_mul_le_iff [Semiring α] [IsStrictOrderedRing α] {l : List ι} {init x y : α}
    (hx : 0 ≤ x) :
    l.foldl (fun f i => if p i then min f (g i) else f) init * x ≤ y ↔
      init * x ≤ y ∨ ∃ i ∈ l, p i ∧ g i * x ≤ y := by
  constructor
  · intro hle
    rcases foldl_limit_cases (p := p) (g := g) l init with h | ⟨i, hi, hp, h⟩
    · exact Or.inl (h ▸ hle)
    · exact Or.inr ⟨i, hi, hp, h ▸ hle⟩
  · rintro (hle | ⟨i, hi, hp, hle⟩)
    · exact (mul_le_mul_of_nonneg_right (foldl_limit_le_init l init) hx).trans hle
    · exact (mul_le_mul_of_nonneg_right (foldl_limit_le hi hp init) hx).trans hle

end TdPrinter
