import Mathlib.Algebra.Order.Ring.Nat
import Mathlib.Data.List.Basic
import Mathlib.Logic.Function.Basic
import Mathlib.Tactic.Ring

/-!
# Blocks of memory

A block of allocated memory is the list of what it holds.  `loadBytes` and `storeBytes`
are `memcpy` out of it and into it; they return `none` where an access would leave the
block.

An array of items of `sz` bytes lies in a block one item after the other, and `cell` is
one of them.  A store inside an item changes this item only.

`toBytes` and `ofBytes` are the little-endian representation of a number.

Where accesses beyond the end matter, memory is a function of the offset instead, and a
block is what it gives on `List.range`.
-/

namespace TdPrinter

variable {α : Type*}

/-! ## Loads and stores -/

/-- `memcpy` of `n` bytes out of the block, from the offset `off` on. -/
def loadBytes (mem : List α) (off n : ℕ) : Option (List α) :=
  if off + n ≤ mem.length then some ((mem.drop off).take n) else none

/-- The block with `bs` in place of what is at the offset `off`. -/
def splice (mem : List α) (off : ℕ) (bs : List α) : List α :=
  mem.take off ++ bs ++ mem.drop (off + bs.length)

/-- `memcpy` of `bs` into the block, to the offset `off`. -/
def storeBytes (mem : List α) (off : ℕ) (bs : List α) : Option (List α) :=
  if off + bs.length ≤ mem.length then some (splice mem off bs) else none

theorem length_splice {mem bs : List α} {off : ℕ} (h : off + bs.length ≤ mem.length) :
    (splice mem off bs).length = mem.length := by
  simp only [splice, List.length_append, List.length_take, List.length_drop]
  omega

theorem getElem?_splice {mem bs : List α} {off : ℕ} (h : off + bs.length ≤ mem.length) (k : ℕ) :
    (splice mem off bs)[k]? =
      if k < off then mem[k]? else if k < off + bs.length then bs[k - off]? else mem[k]? := by
  have hbefore : (mem.take off).length = off := by
    rw [List.length_take]
    omega
  rw [splice, List.append_assoc]
  split
  · rename_i hk
    rw [List.getElem?_append_left (by omega), List.getElem?_take_of_lt hk]
  · rename_i hk
    rw [List.getElem?_append_right (by omega), hbefore]
    split
    · rw [List.getElem?_append_left (by omega)]
    · rw [List.getElem?_append_right (by omega), List.getElem?_drop]
      congr 1
      omega

/-! ## Arrays of items -/

/-- The item `i` of an array of items of `sz` bytes. -/
def cell (sz : ℕ) (mem : List α) (i : ℕ) : List α :=
  (mem.drop (i * sz)).take sz

theorem getElem?_cell (sz : ℕ) (mem : List α) (i k : ℕ) :
    (cell sz mem i)[k]? = if k < sz then mem[i * sz + k]? else none := by
  rw [cell, List.getElem?_take]
  split
  · rw [List.getElem?_drop]
  · rfl

theorem mul_add_le_of_lt {i N sz : ℕ} (hi : i < N) : i * sz + sz ≤ N * sz := by
  calc i * sz + sz = (i + 1) * sz := by ring
    _ ≤ N * sz := Nat.mul_le_mul_right sz hi

theorem length_cell {sz : ℕ} {mem : List α} {i : ℕ} (h : i * sz + sz ≤ mem.length) :
    (cell sz mem i).length = sz := by
  simp only [cell, List.length_take, List.length_drop]
  omega

theorem loadBytes_cell {sz : ℕ} {mem : List α} {i : ℕ} (h : i * sz + sz ≤ mem.length) :
    loadBytes mem (i * sz) sz = some (cell sz mem i) := if_pos h

theorem storeBytes_cell {sz : ℕ} {mem : List α} {i d : ℕ} {bs : List α}
    (h : i * sz + sz ≤ mem.length) (hbs : d + bs.length ≤ sz) :
    storeBytes mem (i * sz + d) bs = some (splice mem (i * sz + d) bs) := if_pos (by omega)

/-- What a store inside an item makes of this item. -/
theorem cell_splice_self {sz : ℕ} {mem : List α} {i d : ℕ} {bs : List α}
    (h : i * sz + sz ≤ mem.length) (hbs : d + bs.length ≤ sz) :
    cell sz (splice mem (i * sz + d) bs) i = splice (cell sz mem i) d bs := by
  apply List.ext_getElem?
  intro k
  rw [getElem?_cell, getElem?_splice (by omega),
    getElem?_splice (by rw [length_cell h]; exact hbs), getElem?_cell]
  by_cases hk : k < sz
  · have hoff : i * sz + k - (i * sz + d) = k - d := by omega
    simp only [if_pos hk, hoff]
    congr 1
    · simp
    · congr 1
      simp [Nat.add_assoc]
  · rw [if_neg hk, if_neg hk, if_neg (by omega), if_neg (by omega)]

/-- What a store inside an item makes of the other items. -/
theorem cell_splice_of_ne {sz : ℕ} {mem : List α} {i j d : ℕ} {bs : List α}
    (h : i * sz + sz ≤ mem.length) (hbs : d + bs.length ≤ sz) (hne : j ≠ i) :
    cell sz (splice mem (i * sz + d) bs) j = cell sz mem j := by
  apply List.ext_getElem?
  intro k
  rw [getElem?_cell, getElem?_splice (by omega), getElem?_cell]
  by_cases hk : k < sz
  · rw [if_pos hk, if_pos hk]
    rcases Nat.lt_or_gt_of_ne hne with hlt | hgt
    · have : j * sz + sz ≤ i * sz := mul_add_le_of_lt hlt
      rw [if_pos (by omega)]
    · have : i * sz + sz ≤ j * sz := mul_add_le_of_lt hgt
      rw [if_neg (by omega), if_neg (by omega)]
  · rw [if_neg hk, if_neg hk]

theorem splice_zero_of_length {mem bs : List α} (h : bs.length = mem.length) :
    splice mem 0 bs = bs := by
  simp [splice, h]

/-! ## Numbers -/

/-- The `k` bytes of a number, the lowest one first. -/
def toBytes : ℕ → ℕ → List UInt8
  | 0, _ => []
  | k + 1, n => UInt8.ofNat n :: toBytes k (n / 256)

/-- The number that bytes stand for, the lowest one first. -/
def ofBytes : List UInt8 → ℕ
  | [] => 0
  | b :: bs => b.toNat + 256 * ofBytes bs

@[simp]
theorem length_toBytes (k n : ℕ) : (toBytes k n).length = k := by
  induction k generalizing n with
  | zero => rfl
  | succ k ih => simp [toBytes, ih]

theorem ofBytes_toBytes (k n : ℕ) : ofBytes (toBytes k n) = n % 256 ^ k := by
  induction k generalizing n with
  | zero => simp [toBytes, ofBytes, Nat.mod_one]
  | succ k ih =>
      rw [toBytes, ofBytes, ih, pow_succ', Nat.mod_mul, UInt8.toNat_ofNat']

/-! ## Memory as a function -/

theorem map_range_update (f : ℕ → α) {n i : ℕ} (hi : n ≤ i) (c : α) :
    (List.range n).map (Function.update f i c) = (List.range n).map f := by
  apply List.map_congr_left
  intro k hk
  rw [List.mem_range] at hk
  exact Function.update_of_ne (by omega) _ _

theorem map_range_store (f : ℕ → α) (n : ℕ) (c : α) :
    (List.range (n + 1)).map (Function.update f n c) = (List.range n).map f ++ [c] := by
  rw [List.range_succ, List.map_append, map_range_update f le_rfl, List.map_singleton,
    Function.update_self]

theorem map_range_split (f : ℕ → α) {l n : ℕ} (h : l < n) :
    ∃ s, (List.range n).map f = (List.range l).map f ++ f l :: s := by
  obtain ⟨k, rfl⟩ : ∃ k, n = l + (k + 1) := ⟨n - l - 1, by omega⟩
  rw [List.range_add, List.map_append, List.range_succ_eq_map]
  exact ⟨_, rfl⟩

end TdPrinter
