import Mathlib.Data.List.Range
import Mathlib.Data.Fin.Basic
import Mathlib.Logic.Function.Basic
import Mathlib.Data.Nat.ModEq

/-!
# Ring buffers and FIFO histories

A ring buffer is an array `Fin N → α` with the index `tail` of its oldest entry
and a count.  `slot tail k` is the index `k` places after `tail`, and
`window buf tail n` the list of the `n` entries from `tail` on.  While fewer than
`N` entries are in use their slots are pairwise distinct, so writing the first
free slot appends to the window and moving `tail` drops its first entry.

What a queue is for is said by `History`: the legal histories of a first-in
first-out queue that may also be flushed, together with the contents they lead to.
An element can only be taken out when it is the oldest one present.
-/

namespace TdPrinter

/-! ## Slots -/

section

variable {N : ℕ} [NeZero N]

/-- The index `k` places after `tail`. -/
def slot (tail : Fin N) (k : ℕ) : Fin N :=
  ⟨(tail + k) % N, Nat.mod_lt _ (Nat.pos_of_neZero N)⟩

@[simp]
theorem slot_zero (tail : Fin N) : slot tail 0 = tail := by
  ext
  simp [slot, Nat.mod_eq_of_lt tail.isLt]

@[simp]
theorem slot_slot (tail : Fin N) (j k : ℕ) : slot (slot tail j) k = slot tail (j + k) := by
  ext
  simp [slot, Nat.add_assoc]

/-- Fewer than `N` places apart, different offsets are different slots. -/
theorem slot_injective {tail : Fin N} {j k : ℕ} (hj : j < N) (hk : k < N)
    (h : slot tail j = slot tail k) : j = k := by
  have hmod : j ≡ k [MOD N] := Nat.ModEq.add_left_cancel' _ (congrArg Fin.val h)
  rwa [Nat.ModEq, Nat.mod_eq_of_lt hj, Nat.mod_eq_of_lt hk] at hmod

end

/-! ## Windows -/

section

variable {N : ℕ} [NeZero N] {α : Type*}

/-- The `n` entries from `tail` on. -/
def window (buf : Fin N → α) (tail : Fin N) (n : ℕ) : List α :=
  (List.range n).map fun k => buf (slot tail k)

@[simp]
theorem length_window (buf : Fin N → α) (tail : Fin N) (n : ℕ) :
    (window buf tail n).length = n := by simp [window]

@[simp]
theorem window_zero (buf : Fin N → α) (tail : Fin N) : window buf tail 0 = [] := rfl

theorem window_succ (buf : Fin N → α) (tail : Fin N) (n : ℕ) :
    window buf tail (n + 1) = buf tail :: window buf (slot tail 1) n := by
  simp only [window, List.range_succ_eq_map, List.map_cons, List.map_map, slot_zero]
  congr 1
  apply List.map_congr_left
  intro k _
  simp [Nat.add_comm]

theorem window_add (buf : Fin N → α) (tail : Fin N) (k n : ℕ) :
    window buf tail (k + n) = window buf tail k ++ window buf (slot tail k) n := by
  induction k generalizing tail with
  | zero => simp
  | succ k ih =>
      rw [Nat.add_right_comm, window_succ, window_succ, ih, slot_slot, Nat.add_comm 1 k,
        List.cons_append]

theorem map_window {β : Type*} (f : α → β) (buf : Fin N → α) (tail : Fin N) (n : ℕ) :
    (window buf tail n).map f = window (fun i => f (buf i)) tail n := by
  simp [window, Function.comp_def]

theorem window_congr {buf buf' : Fin N → α} {tail : Fin N} {n : ℕ}
    (h : ∀ k < n, buf (slot tail k) = buf' (slot tail k)) :
    window buf tail n = window buf' tail n :=
  List.map_congr_left fun k hk => h k (List.mem_range.mp hk)

/-- Writing the first free slot appends to the window. -/
theorem window_push {buf : Fin N → α} {tail : Fin N} {n : ℕ} (hn : n < N) (x : α) :
    window (Function.update buf (slot tail n) x) tail (n + 1) = window buf tail n ++ [x] := by
  rw [window, List.range_succ, List.map_append, List.map_singleton, Function.update_self]
  congr 1
  apply List.map_congr_left
  intro k hk
  have hk : k < n := List.mem_range.mp hk
  refine Function.update_of_ne (fun heq => ?_) _ _
  have := slot_injective (by omega) hn heq
  omega

theorem buf_slot_of_window {buf : Fin N → α} {tail : Fin N} {n : ℕ} {pre post : List α} {x : α}
    (h : window buf tail n = pre ++ x :: post) : buf (slot tail pre.length) = x := by
  have hlen := congrArg List.length h
  simp only [length_window, List.length_append, List.length_cons] at hlen
  have hget : (window buf tail n)[pre.length]? = some x := by simp [h]
  rw [window, List.getElem?_map, List.getElem?_range (by omega)] at hget
  exact Option.some.inj hget

theorem window_update {buf : Fin N → α} {tail : Fin N} {n : ℕ} {pre post : List α} {x : α}
    (hn : n ≤ N) (h : window buf tail n = pre ++ x :: post) (y : α) :
    window (Function.update buf (slot tail pre.length) y) tail n = pre ++ y :: post := by
  have hlen := congrArg List.length h
  simp only [length_window, List.length_append, List.length_cons] at hlen
  have hset : window (Function.update buf (slot tail pre.length) y) tail n =
      (window buf tail n).set pre.length y := by
    apply List.ext_getElem
    · simp
    · intro k hk _
      rw [length_window] at hk
      rw [List.getElem_set]
      simp only [window, List.getElem_map, List.getElem_range]
      split
      · rename_i heq
        rw [heq, Function.update_self]
      · rename_i hne
        refine Function.update_of_ne (fun heq => hne ?_) _ _
        exact slot_injective (by omega) (by omega) heq.symm
  rw [hset, h]
  simp

end

/-! ## Histories of a queue -/

inductive QueueEvent (α : Type*)
  | enqueue (x : α)
  | dequeue (x : α)
  | flush
  deriving DecidableEq

section

variable {α : Type*}

/-- `History h q`: the events `h` can happen, in this order, to a first-in
first-out queue that is empty at first, and leave `q` in it. -/
inductive History : List (QueueEvent α) → List α → Prop
  | empty : History [] []
  | enqueue {h : List (QueueEvent α)} {q : List α} (x : α) :
      History h q → History (h ++ [.enqueue x]) (q ++ [x])
  | dequeue {h : List (QueueEvent α)} {q : List α} (x : α) :
      History h (x :: q) → History (h ++ [.dequeue x]) q
  | flush {h : List (QueueEvent α)} {q : List α} :
      History h q → History (h ++ [.flush]) []

def enqueued (h : List (QueueEvent α)) : List α :=
  h.filterMap fun | .enqueue x => some x | _ => none

def dequeued (h : List (QueueEvent α)) : List α :=
  h.filterMap fun | .dequeue x => some x | _ => none

/-- Without a flush, what was put in is what was taken out, in the same order,
followed by what is still there: nothing is lost, repeated or overtaken. -/
theorem History.enqueued_eq {h : List (QueueEvent α)} {q : List α} (hist : History h q)
    (hflush : .flush ∉ h) : enqueued h = dequeued h ++ q := by
  induction hist with
  | empty => rfl
  | enqueue x _ ih =>
      have := ih fun hmem => hflush (List.mem_append_left _ hmem)
      simp_all [enqueued, dequeued]
  | dequeue x _ ih =>
      have := ih fun hmem => hflush (List.mem_append_left _ hmem)
      simp_all [enqueued, dequeued]
  | flush => simp at hflush

/-- With flushes, what was taken out and what is still there come from what was
put in, in order. -/
theorem History.sublist {h : List (QueueEvent α)} {q : List α} (hist : History h q) :
    (dequeued h ++ q).Sublist (enqueued h) := by
  induction hist with
  | empty => exact List.Sublist.refl _
  | enqueue x _ ih =>
      have := ih.append (List.Sublist.refl [x])
      simpa [enqueued, dequeued] using this
  | dequeue x _ ih => simpa [enqueued, dequeued] using ih
  | flush _ ih =>
      have := (List.sublist_append_left _ _).trans ih
      simpa [enqueued, dequeued] using this

end

end TdPrinter
