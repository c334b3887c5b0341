import Mathlib.Algebra.Order.Ring.Nat
import Mathlib.Data.Fintype.Card
import Mathlib.Data.List.Basic
import Mathlib.Logic.Function.Basic

/-!
# Doubly linked chains in memory

A heap has cells at addresses; 0 is the null pointer, and an address is not handed out a second
time, so that every access to a freed cell fails.  A chain is a cell `root`, which carries no item,
and behind it one cell for each item, linked in both directions and ended by null pointers.

`Linked h root items addr` says that there is one: `addr i` is the address of the cell `i`, with
the root as number 0.  From it follows what a step along `next` or `prev` finds, what it takes to
append a cell, and that the items are determined by the memory.
-/

namespace TdPrinter

/-! ## Memory -/

structure Heap (α : Type*) where
  cells : ℕ → Option α
  top : ℕ
  cells_null : cells 0 = none
  cells_top : ∀ p, top ≤ p → cells p = none
  top_pos : 0 < top

namespace Heap

variable {α : Type*}

def malloc (h : Heap α) (a : α) : ℕ × Heap α :=
  (h.top,
    { cells := Function.update h.cells h.top (some a)
      top := h.top + 1
      cells_null := by
        rw [Function.update_of_ne h.top_pos.ne, h.cells_null]
      cells_top := fun p hp => by
        rw [Function.update_of_ne (by omega), h.cells_top p (by omega)]
      top_pos := Nat.succ_pos _ })

/-- An assignment to a part of the cell `p`. -/
def modify (h : Heap α) (p : ℕ) (f : α → α) : Option (Heap α) :=
  if hp : (h.cells p).isSome then
    some { h with
      cells := Function.update h.cells p ((h.cells p).map f)
      cells_null := by
        have hne : p ≠ 0 := by
          rintro rfl
          simp [h.cells_null] at hp
        rw [Function.update_of_ne hne.symm, h.cells_null]
      cells_top := fun q hq => by
        have hne : q ≠ p := by
          rintro rfl
          simp [h.cells_top q hq] at hp
        rw [Function.update_of_ne hne, h.cells_top q hq] }
  else none

/-- The cell `p` is given back. -/
def free (h : Heap α) (p : ℕ) : Option (Heap α) :=
  if (h.cells p).isSome then
    some { h with
      cells := Function.update h.cells p none
      cells_null := by
        rw [Function.update_apply, h.cells_null, ite_self]
      cells_top := fun q hq => by
        rw [Function.update_apply, h.cells_top q hq, ite_self] }
  else none

variable {h : Heap α} {p : ℕ} {a : α}

theorem ne_null (hp : h.cells p = some a) : p ≠ 0 := by
  rintro rfl
  simp [h.cells_null] at hp

theorem lt_top (hp : h.cells p = some a) : p < h.top := by
  by_contra! hle
  simp [h.cells_top p hle] at hp

theorem malloc_cells (h : Heap α) (a : α) (q : ℕ) :
    (h.malloc a).2.cells q = if q = h.top then some a else h.cells q :=
  Function.update_apply ..

theorem modify_spec (hp : h.cells p = some a) (f : α → α) :
    ∃ h', h.modify p f = some h' ∧ h'.top = h.top ∧
      ∀ q, h'.cells q = if q = p then some (f a) else h.cells q := by
  refine ⟨_, dif_pos (by simp [hp]), rfl, fun q => ?_⟩
  simp [Function.update_apply, hp]

theorem free_spec (hp : h.cells p = some a) :
    ∃ h', h.free p = some h' ∧ h'.top = h.top ∧
      ∀ q, h'.cells q = if q = p then none else h.cells q := by
  refine ⟨_, if_pos (by simp [hp]), rfl, fun q => ?_⟩
  simp [Function.update_apply]

end Heap

/-! ## Chains -/

structure Link (α : Type*) where
  item : α
  prev : ℕ
  next : ℕ

/-- What `next` of the cell `i` is in a chain of `n` items. -/
def nextAddr (addr : ℕ → ℕ) (n i : ℕ) : ℕ := if i = n then 0 else addr (i + 1)

variable {α : Type*}

/-- The cells `addr 0`, …, `addr items.length` form a chain. -/
structure Linked (h : Heap (Link α)) (root : ℕ) (items : List α) (addr : ℕ → ℕ) : Prop where
  addr_zero : addr 0 = root
  root_link : ∃ x, h.cells root = some ⟨x, 0, nextAddr addr items.length 0⟩
  link : ∀ i x, items[i]? = some x →
    h.cells (addr (i + 1)) = some ⟨x, addr i, nextAddr addr items.length (i + 1)⟩
  inj : ∀ i j, i ≤ items.length → j ≤ items.length → addr i = addr j → i = j

namespace Linked

variable {h : Heap (Link α)} {root : ℕ} {items : List α} {addr : ℕ → ℕ}

/-- Every cell is there, and leads to the next one. -/
theorem cell (hc : Linked h root items addr) {i : ℕ} (hi : i ≤ items.length) :
    ∃ l, h.cells (addr i) = some l ∧ l.next = nextAddr addr items.length i ∧
      l.prev = if i = 0 then 0 else addr (i - 1) := by
  cases i with
  | zero =>
      obtain ⟨x, hroot⟩ := hc.root_link
      exact ⟨_, hc.addr_zero ▸ hroot, rfl, rfl⟩
  | succ i => exact ⟨_, hc.link i _ (List.getElem?_eq_getElem hi), rfl, rfl⟩

theorem ne_null (hc : Linked h root items addr) {i : ℕ} (hi : i ≤ items.length) :
    addr i ≠ 0 := by
  obtain ⟨l, hl, -⟩ := hc.cell hi
  exact Heap.ne_null hl

theorem length_lt_top (hc : Linked h root items addr) : items.length < h.top := by
  let f : Fin (items.length + 1) → Fin h.top := fun i =>
    ⟨addr i, by
      obtain ⟨l, hl, -⟩ := hc.cell (Nat.le_of_lt_succ i.isLt)
      exact Heap.lt_top hl⟩
  have hinj : Function.Injective f := fun i j hij => by
    apply Fin.ext
    exact hc.inj i j (Nat.le_of_lt_succ i.isLt) (Nat.le_of_lt_succ j.isLt) (Fin.mk.inj hij)
  have hcard := Fintype.card_le_of_injective f hinj
  rw [Fintype.card_fin, Fintype.card_fin] at hcard
  exact hcard

theorem nil {x : α} (hroot : h.cells root = some ⟨x, 0, 0⟩) : Linked h root [] fun _ => root where
  addr_zero := rfl
  root_link := ⟨x, hroot⟩
  link i x hx := by simp at hx
  inj i j hi hj _ := by
    rw [List.length_nil] at hi hj
    omega

/-- Two descriptions of a chain number its cells alike. -/
theorem addr_eq {items' : List α} {addr' : ℕ → ℕ} (hc : Linked h root items addr)
    (hc' : Linked h root items' addr') {i : ℕ} (hi : i ≤ items.length) :
    i ≤ items'.length ∧ addr i = addr' i := by
  induction i with
  | zero => exact ⟨Nat.zero_le _, hc.addr_zero.trans hc'.addr_zero.symm⟩
  | succ i ih =>
      obtain ⟨hi', heq⟩ := ih (by omega)
      obtain ⟨l, hl, hnext, -⟩ := hc.cell (i := i) (by omega)
      obtain ⟨l', hl', hnext', -⟩ := hc'.cell hi'
      obtain rfl : l = l' := Option.some.inj (hl.symm.trans (heq ▸ hl'))
      have hsame : nextAddr addr items.length i = nextAddr addr' items'.length i :=
        hnext.symm.trans hnext'
      rw [nextAddr, if_neg (by omega), nextAddr] at hsame
      split at hsame
      · exact absurd hsame (hc.ne_null hi)
      · exact ⟨by omega, hsame⟩

theorem unique {items' : List α} {addr' : ℕ → ℕ} (hc : Linked h root items addr)
    (hc' : Linked h root items' addr') : items = items' := by
  have hlen : items.length = items'.length :=
    Nat.le_antisymm (hc.addr_eq hc' le_rfl).1 (hc'.addr_eq hc le_rfl).1
  refine List.ext_getElem hlen fun i hi hi' => ?_
  have hl := hc.link i _ (List.getElem?_eq_getElem hi)
  have hl' := hc'.link i _ (List.getElem?_eq_getElem hi')
  rw [← (hc.addr_eq hc' (show i + 1 ≤ items.length from hi)).2] at hl'
  exact congrArg Link.item (Option.some.inj (hl.symm.trans hl'))

/-- The chain with one more cell `p`, if the last `next` leads there and no other link has
changed. -/
theorem extend (hc : Linked h root items addr) {h' : Heap (Link α)} {x : α} {p : ℕ}
    (hnew : ∀ i ≤ items.length, addr i ≠ p)
    (hold : ∀ i ≤ items.length, ∀ l, h.cells (addr i) = some l →
      h'.cells (addr i) = some { l with next := if i = items.length then p else l.next })
    (hlast : h'.cells p = some ⟨x, addr items.length, 0⟩) :
    Linked h' root (items ++ [x]) (Function.update addr (items.length + 1) p) := by
  set addr' := Function.update addr (items.length + 1) p with haddr'
  have hsame : ∀ i ≤ items.length, addr' i = addr i := fun i hi =>
    Function.update_of_ne (by omega) _ _
  have hend : addr' (items.length + 1) = p := Function.update_self ..
  have hlen : (items ++ [x]).length = items.length + 1 := by
    rw [List.length_append, List.length_singleton]
  -- the cells of the old chain lead on as the new one says
  have hnext : ∀ i ≤ items.length, ∀ y q,
      h.cells (addr i) = some ⟨y, q, nextAddr addr items.length i⟩ →
        h'.cells (addr i) = some ⟨y, q, nextAddr addr' (items.length + 1) i⟩ := by
    intro i hi y q hl
    have hfollow : nextAddr addr' (items.length + 1) i = addr' (i + 1) := if_neg (by omega)
    rw [hold i hi _ hl, hfollow]
    rcases hi.lt_or_eq with hlt | rfl
    · have hinner : nextAddr addr items.length i = addr (i + 1) := if_neg hlt.ne
      rw [if_neg hlt.ne, hsame _ hlt, ← hinner]
    · rw [if_pos rfl, hend]
  refine ⟨?_, ?_, ?_, ?_⟩
  · rw [hsame 0 (Nat.zero_le _), hc.addr_zero]
  · obtain ⟨y, hy⟩ := hc.root_link
    rw [← hc.addr_zero] at hy ⊢
    rw [hlen]
    exact ⟨y, hnext 0 (Nat.zero_le _) y 0 hy⟩
  · intro i y hy
    rw [hlen]
    rcases Nat.lt_or_ge i items.length with hlt | hge
    · rw [List.getElem?_append_left hlt] at hy
      rw [hsame (i + 1) hlt, hsame i hlt.le]
      exact hnext (i + 1) hlt y _ (hc.link i y hy)
    · have hbound := (List.getElem?_eq_some_iff.mp hy).1
      obtain rfl : i = items.length := by omega
      rw [List.getElem?_concat_length] at hy
      obtain rfl := Option.some.inj hy
      rw [hend, hlast, hsame _ le_rfl, nextAddr, if_pos rfl]
  · intro i j hi hj heq
    rw [hlen] at hi hj
    rcases hi.lt_or_eq with hilt | rfl <;> rcases hj.lt_or_eq with hjlt | rfl
    · rw [hsame i (by omega), hsame j (by omega)] at heq
      exact hc.inj i j (by omega) (by omega) heq
    · rw [hsame i (by omega), hend] at heq
      exact absurd heq (hnew i (by omega))
    · rw [hsame j (by omega), hend] at heq
      exact absurd heq.symm (hnew j (by omega))
    · rfl

theorem append (hc : Linked h root items addr) (x : α) :
    ∃ last h', h.cells (addr items.length) = some last ∧
      (h.malloc ⟨x, addr items.length, last.next⟩).2.modify (addr items.length)
        (fun l => { l with next := h.top }) = some h' ∧
      Linked h' root (items ++ [x]) (Function.update addr (items.length + 1) h.top) := by
  obtain ⟨last, hlast, hnext, -⟩ := hc.cell (le_refl items.length)
  rw [nextAddr, if_pos rfl] at hnext
  have hnew : ∀ i ≤ items.length, addr i ≠ h.top := fun i hi => by
    obtain ⟨l, hl, -⟩ := hc.cell hi
    exact (Heap.lt_top hl).ne
  have hcell : (h.malloc ⟨x, addr items.length, last.next⟩).2.cells (addr items.length) =
      some last := by
    rw [Heap.malloc_cells, if_neg (hnew _ le_rfl), hlast]
  obtain ⟨h', hmodify, -, hcells⟩ := Heap.modify_spec hcell fun l => { l with next := h.top }
  refine ⟨last, h', hlast, hmodify, hc.extend hnew ?_ ?_⟩
  · intro i hi l hl
    rw [hcells]
    rcases hi.lt_or_eq with hlt | rfl
    · have hne : addr i ≠ addr items.length := fun heq =>
        absurd (hc.inj i _ hi le_rfl heq) hlt.ne
      rw [if_neg hne, if_neg hlt.ne, Heap.malloc_cells, if_neg (hnew i hi), hl]
    · obtain rfl : last = l := Option.some.inj (hlast.symm.trans hl)
      rw [if_pos rfl, if_pos rfl]
  · rw [hcells, if_neg (hnew _ le_rfl).symm, Heap.malloc_cells, if_pos rfl, hnext]

/-- After `k` cells have been taken out behind the root, what is left leads on. -/
structure Unlinked (h' : Heap (Link α)) (addr : ℕ → ℕ) (n k : ℕ) : Prop where
  root_link : ∃ x, h'.cells (addr 0) = some ⟨x, 0, nextAddr addr n k⟩
  rest : ∀ i, k < i → i ≤ n → ∃ l, h'.cells (addr i) = some l ∧ l.next = nextAddr addr n i

theorem unlinked_zero (hc : Linked h root items addr) : Unlinked h addr items.length 0 := by
  refine ⟨hc.addr_zero ▸ hc.root_link, fun i _ hi => ?_⟩
  obtain ⟨l, hl, hnext, -⟩ := hc.cell hi
  exact ⟨l, hl, hnext⟩

theorem unlink {h' : Heap (Link α)} {n k : ℕ} (hu : Unlinked h' addr n k) (hk : k < n)
    (hinj : ∀ i j, i ≤ n → j ≤ n → addr i = addr j → i = j) :
    ∃ first h₁ h₂, h'.cells (addr (k + 1)) = some first ∧
      h'.modify (addr 0) (fun l => { l with next := first.next }) = some h₁ ∧
      h₁.free (addr (k + 1)) = some h₂ ∧ Unlinked h₂ addr n (k + 1) := by
  obtain ⟨first, hfirst, hnext⟩ := hu.rest (k + 1) (Nat.lt_succ_self k) hk
  obtain ⟨x, hroot⟩ := hu.root_link
  have hne : ∀ i j, i ≤ n → j ≤ n → i ≠ j → addr i ≠ addr j := fun i j hi hj hij heq =>
    hij (hinj i j hi hj heq)
  obtain ⟨h₁, hmodify, -, hcells₁⟩ := Heap.modify_spec hroot fun l => { l with next := first.next }
  have hfirst₁ : h₁.cells (addr (k + 1)) = some first := by
    rw [hcells₁, if_neg (hne _ _ hk (Nat.zero_le _) (Nat.succ_ne_zero k)), hfirst]
  obtain ⟨h₂, hfree, -, hcells₂⟩ := Heap.free_spec hfirst₁
  refine ⟨first, h₁, h₂, hfirst, hmodify, hfree, ⟨x, ?_⟩, ?_⟩
  · rw [hcells₂, if_neg (hne _ _ (Nat.zero_le _) hk (Nat.succ_ne_zero k).symm), hcells₁,
      if_pos rfl, hnext]
  · intro i hki hi
    obtain ⟨l, hl, hlnext⟩ := hu.rest i (by omega) hi
    refine ⟨l, ?_, hlnext⟩
    rw [hcells₂, if_neg (hne _ _ hi hk (by omega)), hcells₁,
      if_neg (hne _ _ hi (Nat.zero_le _) (by omega)), hl]

end Linked

end TdPrinter
