import Mathlib.Data.List.Basic

/-!
# Pointer loops over memory

A pointer is the list of what lies from it to the end of a piece of memory, so `*s` is its
head and `s++` its tail, and there is nothing to read behind the end.  `scanWhile` is the
loop `while (p(*s)) acc = step(acc, *s++);`, which fails if it runs off the memory.

Where something that stops the loop lies ahead, it reads the text in front of it and
nothing behind (`scanWhile_of_stop`).  Readers that stop in front of a terminator `z` in
this way, `StopsAt z`, can be put one after the other.
-/

namespace TdPrinter

variable {α β : Type*}

/-- `while (p(*s)) acc = step(acc, *s++);`: what has been accumulated, and the pointer. -/
def scanWhile (p : α → Bool) (step : β → α → β) : β → List α → Option (β × List α)
  | _, [] => none
  | acc, c :: s => if p c then scanWhile p step (step acc c) s else some (acc, c :: s)

variable {p : α → Bool} {step : β → α → β}

theorem scanWhile_stop {c : α} (hc : p c = false) (acc : β) (s : List α) :
    scanWhile p step acc (c :: s) = some (acc, c :: s) := by
  rw [scanWhile, if_neg (by simp [hc])]

theorem scanWhile_append {l : List α} (hl : ∀ c ∈ l, p c = true) (acc : β) (s : List α) :
    scanWhile p step acc (l ++ s) = scanWhile p step (l.foldl step acc) s := by
  induction l generalizing acc with
  | nil => rfl
  | cons c l ih =>
      rw [List.cons_append, scanWhile, if_pos (hl c List.mem_cons_self),
        ih fun b hb => hl b (List.mem_cons_of_mem _ hb), List.foldl_cons]

theorem scanWhile_text {l : List α} (hl : ∀ c ∈ l, p c = true) {z : α} (hz : p z = false)
    (acc : β) (r : List α) :
    scanWhile p step acc (l ++ z :: r) = some (l.foldl step acc, z :: r) := by
  rw [scanWhile_append hl, scanWhile_stop hz]

/-- The loop does not look behind the first thing that stops it. -/
theorem scanWhile_of_stop {z : α} (hz : p z = false) (l : List α) (acc : β) (r : List α) :
    scanWhile p step acc (l ++ z :: r) =
      some ((l.takeWhile p).foldl step acc, l.dropWhile p ++ z :: r) := by
  induction l generalizing acc with
  | nil => exact scanWhile_stop hz acc r
  | cons c l ih =>
      rw [List.cons_append, scanWhile]
      cases hc : p c with
      | true => simp [hc, ih]
      | false => simp [hc]

/-- Where nothing stops it the loop leaves the memory. -/
theorem scanWhile_eq_none {l : List α} (hl : ∀ c ∈ l, p c = true) (acc : β) :
    scanWhile p step acc l = none := by
  have h : scanWhile p step acc (l ++ []) = _ := scanWhile_append hl acc []
  rw [List.append_nil] at h
  rw [h, scanWhile]

/-! ## Readers that stop at a terminator -/

/-- `f` stops in front of the next `z`, and what it returns does not depend on anything
behind. -/
def StopsAt (z : α) (f : List α → Option (β × List α)) : Prop :=
  ∀ t, ∃ x u, ∀ r, f (t ++ z :: r) = some (x, u ++ z :: r)

theorem stopsAt_scanWhile {z : α} (hz : p z = false) (acc : β) :
    StopsAt z (scanWhile p step acc) :=
  fun t => ⟨_, _, fun r => scanWhile_of_stop hz t acc r⟩

theorem StopsAt.bind {γ : Type*} {z : α} {f : List α → Option (β × List α)}
    {g : β → List α → Option (γ × List α)} (hf : StopsAt z f) (hg : ∀ x, StopsAt z (g x)) :
    StopsAt z fun s => (f s).bind fun r => g r.1 r.2 := by
  intro t
  obtain ⟨x, u, hread⟩ := hf t
  obtain ⟨y, v, hnext⟩ := hg x u
  refine ⟨y, v, fun r => ?_⟩
  dsimp only
  rw [hread, Option.bind_some, hnext]

theorem StopsAt.map {γ : Type*} {z : α} {f : List α → Option (β × List α)} (hf : StopsAt z f)
    (k : β → γ) : StopsAt z fun s => (f s).map fun r => (k r.1, r.2) := by
  intro t
  obtain ⟨x, u, hread⟩ := hf t
  refine ⟨k x, u, fun r => ?_⟩
  dsimp only
  rw [hread, Option.map_some]

end TdPrinter
