import TdPrinter.Foundation.Memory
import TdPrinter.Foundation.Refinement
import TdPrinter.Foundation.RingBuffer

/-!
# The ring buffer of the drivers

`ringbuffer_t` keeps up to `itemNum` items of `itemSize` bytes in one allocated block.
`head` is the slot of the next item, `tail` that of the oldest one, and `len` counts
the items, so that a full buffer and an empty one differ although `head` and `tail` do not.
The fields are 16 bits wide in the source; none of them exceeds `itemNum`, which is a
16-bit number itself.

Every access goes through `loadBytes` and `storeBytes`: an operation returns `none` if it
would leave the block.  The abstract layer is `Fifo`, a list with a bound on its length,
and `ringbuffer_refines` connects the two.
-/

namespace TdPrinter

abbrev Item (itemSize : ℕ) := { bytes : List UInt8 // bytes.length = itemSize }

/-- `ringbuffer_t`. -/
structure Ringbuffer (itemSize itemNum : ℕ) where
  head : Fin itemNum
  tail : Fin itemNum
  len : ℕ
  buffer : List UInt8
  deriving DecidableEq

/-- What an operation returns, and what it has copied to its argument. -/
structure Answer (α : Type*) where
  code : ℤ
  item : Option α
  deriving DecidableEq

section

variable {itemSize itemNum : ℕ} [NeZero itemNum]

/-! ## The operations -/

/-- `ringbuffer_reset`. -/
def ringbufferReset (rb : Ringbuffer itemSize itemNum) : Option (Ringbuffer itemSize itemNum) :=
  (storeBytes rb.buffer 0 (List.replicate (itemNum * itemSize) 0)).map fun buffer =>
    { head := 0, tail := 0, len := 0, buffer }

/-- `ringbuffer_init`, with the block that `rt_malloc` has returned. -/
def ringbufferInit (block : List UInt8) : Option (Ringbuffer itemSize itemNum) :=
  ringbufferReset { head := 0, tail := 0, len := 0, buffer := block }

/-- `ringbuffer_push`. -/
def ringbufferPush (rb : Ringbuffer itemSize itemNum) (item : Item itemSize) :
    Option (ℤ × Ringbuffer itemSize itemNum) :=
  if rb.len < itemNum then
    (storeBytes rb.buffer (rb.head * itemSize) item.1).map fun buffer =>
      (1, { rb with buffer, head := slot rb.head 1, len := rb.len + 1 })
  else some (0, rb)

omit [NeZero itemNum] in
/-- The `MEMCPY` of `ringbuffer_pop` and `ringbuffer_peak`, which is left out if the
argument `item` is a null pointer. -/
def Ringbuffer.copyItem (rb : Ringbuffer itemSize itemNum) (item : Bool) :
    Option (Option (List UInt8)) :=
  if item then (loadBytes rb.buffer (rb.tail * itemSize) itemSize).map some else some none

/-- `ringbuffer_pop`. -/
def ringbufferPop (rb : Ringbuffer itemSize itemNum) (item : Bool) :
    Option (Answer (List UInt8) × Ringbuffer itemSize itemNum) :=
  if rb.len > 0 then
    (rb.copyItem item).map fun bytes =>
      (⟨1, bytes⟩, { rb with tail := slot rb.tail 1, len := rb.len - 1 })
  else some (⟨0, none⟩, rb)

omit [NeZero itemNum] in
/-- `ringbuffer_peak`. -/
def ringbufferPeak (rb : Ringbuffer itemSize itemNum) (item : Bool) :
    Option (Answer (List UInt8)) :=
  if rb.len > 0 then (rb.copyItem item).map fun bytes => ⟨1, bytes⟩
  else some ⟨0, none⟩

omit [NeZero itemNum] in
/-- `ringbuffer_getNum`. -/
def ringbufferGetNum (rb : Ringbuffer itemSize itemNum) : ℤ := rb.len

/-! ## The contents -/

omit [NeZero itemNum] in
def Ringbuffer.cells (rb : Ringbuffer itemSize itemNum) (i : Fin itemNum) : List UInt8 :=
  cell itemSize rb.buffer i

/-- The items held, the oldest one first. -/
def Ringbuffer.items (rb : Ringbuffer itemSize itemNum) : List (List UInt8) :=
  window rb.cells rb.tail rb.len

/-- What the operations keep true of the fields. -/
structure Ringbuffer.Inv (rb : Ringbuffer itemSize itemNum) : Prop where
  size : rb.buffer.length = itemNum * itemSize
  bounded : rb.len ≤ itemNum
  head_eq : rb.head = slot rb.tail rb.len

@[simp]
theorem length_items (rb : Ringbuffer itemSize itemNum) : rb.items.length = rb.len :=
  length_window _ _ _

omit [NeZero itemNum] in
theorem item_in_block {buffer : List UInt8} (h : buffer.length = itemNum * itemSize)
    (i : Fin itemNum) : i * itemSize + itemSize ≤ buffer.length := by
  rw [h]
  exact mul_add_le_of_lt i.isLt

omit [NeZero itemNum] in
/-- A store into one item of the block updates the array there. -/
theorem cells_splice {rb : Ringbuffer itemSize itemNum} (i : Fin itemNum)
    (hsize : rb.buffer.length = itemNum * itemSize) {d : ℕ} {bs : List UInt8}
    (hbs : d + bs.length ≤ itemSize) {buffer : List UInt8}
    (h : buffer = splice rb.buffer (i * itemSize + d) bs) :
    (fun j : Fin itemNum => cell itemSize buffer j) =
      Function.update rb.cells i (splice (rb.cells i) d bs) := by
  subst h
  have hfit := item_in_block hsize i
  funext j
  by_cases hj : j = i
  · subst hj
    rw [Function.update_self]
    exact cell_splice_self hfit hbs
  · rw [Function.update_of_ne hj]
    exact cell_splice_of_ne hfit hbs fun h => hj (Fin.ext h)

/-! ## What each operation does -/

theorem reset_spec {rb : Ringbuffer itemSize itemNum}
    (hsize : rb.buffer.length = itemNum * itemSize) :
    ∃ rb', ringbufferReset rb = some rb' ∧ rb'.Inv ∧ rb'.tail = 0 ∧ rb'.len = 0 := by
  have hstore : storeBytes rb.buffer 0 (List.replicate (itemNum * itemSize) 0) =
      some (splice rb.buffer 0 (List.replicate (itemNum * itemSize) 0)) := by
    apply if_pos
    simp [hsize]
  refine ⟨_, by rw [ringbufferReset, hstore]; rfl, ⟨?_, Nat.zero_le _, ?_⟩, rfl, rfl⟩
  · rw [splice_zero_of_length (by simp [hsize])]
    simp
  · simp

/-- An item is taken as long as there is room for it. -/
theorem push_spec {rb : Ringbuffer itemSize itemNum} (h : rb.Inv) (item : Item itemSize)
    (hroom : rb.len < itemNum) :
    ∃ rb', ringbufferPush rb item = some (1, rb') ∧ rb'.Inv ∧ rb'.tail = rb.tail ∧
      rb'.len = rb.len + 1 ∧ rb'.items = rb.items ++ [item.1] := by
  have hfit := item_in_block h.size rb.head
  have hitem : 0 + item.1.length ≤ itemSize := by rw [item.2]; omega
  have hstore := storeBytes_cell hfit hitem
  rw [Nat.add_zero] at hstore
  refine ⟨{ rb with
      buffer := splice rb.buffer (rb.head * itemSize) item.1
      head := slot rb.head 1
      len := rb.len + 1 }, ?_, ⟨?_, hroom, ?_⟩, rfl, rfl, ?_⟩
  · rw [ringbufferPush, if_pos hroom, hstore]
    rfl
  · rw [length_splice (by rw [item.2]; exact hfit), h.size]
  · rw [h.head_eq, slot_slot]
  · have hcells := cells_splice rb.head h.size hitem rfl
    rw [Nat.add_zero, splice_zero_of_length] at hcells
    · calc window (fun j : Fin itemNum => cell itemSize _ j) rb.tail (rb.len + 1)
          = window (Function.update rb.cells rb.head item.1) rb.tail (rb.len + 1) := by
            rw [hcells]
        _ = rb.items ++ [item.1] := by
            rw [h.head_eq]
            exact window_push hroom item.1
    · rw [item.2, Ringbuffer.cells, length_cell hfit]

theorem push_full {rb : Ringbuffer itemSize itemNum} (item : Item itemSize)
    (hfull : itemNum ≤ rb.len) : ringbufferPush rb item = some (0, rb) :=
  if_neg (Nat.not_lt.mpr hfull)

theorem copyItem_spec {rb : Ringbuffer itemSize itemNum} (h : rb.Inv) (item : Bool) :
    rb.copyItem item = some (if item then some (rb.cells rb.tail) else none) := by
  unfold Ringbuffer.copyItem
  split
  · rw [loadBytes_cell (item_in_block h.size rb.tail)]
    rfl
  · rfl

theorem peak_spec {rb : Ringbuffer itemSize itemNum} (h : rb.Inv) (item : Bool) (hne : 0 < rb.len) :
    ringbufferPeak rb item = some ⟨1, if item then some (rb.cells rb.tail) else none⟩ := by
  rw [ringbufferPeak, if_pos hne, copyItem_spec h]
  rfl

omit [NeZero itemNum] in
theorem peak_empty {rb : Ringbuffer itemSize itemNum} (item : Bool) (hempty : rb.len = 0) :
    ringbufferPeak rb item = some ⟨0, none⟩ := if_neg (by omega)

theorem pop_spec {rb : Ringbuffer itemSize itemNum} (h : rb.Inv) (item : Bool) (hne : 0 < rb.len) :
    ∃ rb', ringbufferPop rb item =
        some (⟨1, if item then some (rb.cells rb.tail) else none⟩, rb') ∧
      rb'.Inv ∧ rb'.tail = slot rb.tail 1 ∧ rb'.len + 1 = rb.len ∧
      rb.items = rb.cells rb.tail :: rb'.items := by
  have hlen : rb.len - 1 + 1 = rb.len := Nat.sub_add_cancel hne
  refine ⟨{ rb with tail := slot rb.tail 1, len := rb.len - 1 }, ?_, ⟨h.size, ?_, ?_⟩,
    rfl, hlen, ?_⟩
  · rw [ringbufferPop, if_pos hne, copyItem_spec h]
    rfl
  · exact (Nat.sub_le _ _).trans h.bounded
  · change rb.head = slot (slot rb.tail 1) (rb.len - 1)
    rw [h.head_eq, slot_slot, Nat.add_comm 1, hlen]
  · calc rb.items = window rb.cells rb.tail (rb.len - 1 + 1) := by rw [hlen]; rfl
      _ = _ := window_succ _ _ _

theorem pop_empty {rb : Ringbuffer itemSize itemNum} (item : Bool) (hempty : rb.len = 0) :
    ringbufferPop rb item = some (⟨0, none⟩, rb) := if_neg (by omega)

end

/-! ## The queue it implements -/

/-- A first-in first-out queue that holds at most `capacity` items. -/
structure Fifo (α : Type*) (capacity : ℕ) where
  items : List α
  bounded : items.length ≤ capacity

section

variable {α : Type*} {capacity : ℕ}

def Fifo.empty : Fifo α capacity := ⟨[], Nat.zero_le _⟩

/-- An item joins the queue if there is room. -/
def Fifo.push (q : Fifo α capacity) (x : α) : ℤ × Fifo α capacity :=
  if h : q.items.length < capacity then
    (1, ⟨q.items ++ [x], by simpa using Nat.succ_le_of_lt h⟩)
  else (0, q)

def Fifo.peak (q : Fifo α capacity) (item : Bool) : Answer α :=
  match q.items with
  | [] => ⟨0, none⟩
  | x :: _ => ⟨1, if item then some x else none⟩

def Fifo.tail (q : Fifo α capacity) : Fifo α capacity :=
  ⟨q.items.tail, by rw [List.length_tail]; exact (Nat.sub_le _ _).trans q.bounded⟩

end

inductive RingbufferOp (itemSize : ℕ)
  | push (item : Item itemSize)
  | pop (item : Bool)
  | peak (item : Bool)
  | getNum
  | reset

def fifoStep {itemSize capacity : ℕ} (q : Fifo (List UInt8) capacity) :
    RingbufferOp itemSize → Answer (List UInt8) × Fifo (List UInt8) capacity
  | .push item => (⟨(q.push item.1).1, none⟩, (q.push item.1).2)
  | .pop item => (q.peak item, q.tail)
  | .peak item => (q.peak item, q)
  | .getNum => (⟨q.items.length, none⟩, q)
  | .reset => (⟨0, none⟩, .empty)

section

variable {itemSize itemNum : ℕ} [NeZero itemNum]

def ringbufferStep (rb : Ringbuffer itemSize itemNum) :
    RingbufferOp itemSize → Option (Answer (List UInt8) × Ringbuffer itemSize itemNum)
  | .push item => (ringbufferPush rb item).map fun r => (⟨r.1, none⟩, r.2)
  | .pop item => ringbufferPop rb item
  | .peak item => (ringbufferPeak rb item).map fun r => (r, rb)
  | .getNum => some (⟨ringbufferGetNum rb, none⟩, rb)
  | .reset => (ringbufferReset rb).map fun r => (⟨0, none⟩, r)

variable (itemSize itemNum) in
def ringbuffer : Device (Ringbuffer itemSize itemNum) (RingbufferOp itemSize)
    (Answer (List UInt8)) := ⟨ringbufferStep⟩

/-- The queue that the buffer stands for. -/
def Ringbuffer.Abs (rb : Ringbuffer itemSize itemNum) (q : Fifo (List UInt8) itemNum) : Prop :=
  rb.Inv ∧ rb.items = q.items

theorem Ringbuffer.Abs.len_eq {rb : Ringbuffer itemSize itemNum} {q : Fifo (List UInt8) itemNum}
    (h : rb.Abs q) : rb.len = q.items.length := by
  rw [← h.2, length_items]

theorem init_spec {block : List UInt8} (hblock : block.length = itemNum * itemSize) :
    ∃ rb : Ringbuffer itemSize itemNum, ringbufferInit block = some rb ∧ rb.Abs .empty := by
  have hsize : (⟨0, 0, 0, block⟩ : Ringbuffer itemSize itemNum).buffer.length =
      itemNum * itemSize := hblock
  obtain ⟨rb, hreset, hinv, _, hlen⟩ := reset_spec hsize
  refine ⟨rb, hreset, hinv, ?_⟩
  rw [Ringbuffer.items, hlen]
  rfl

theorem push_refines {rb : Ringbuffer itemSize itemNum} {q : Fifo (List UInt8) itemNum}
    (h : rb.Abs q) (item : Item itemSize) :
    ∃ rb', ringbufferPush rb item = some ((q.push item.1).1, rb') ∧
      rb'.Abs (q.push item.1).2 := by
  have hlen := h.len_eq
  unfold Fifo.push
  by_cases hroom : q.items.length < itemNum
  · obtain ⟨rb', hpush, hinv, _, _, hitems⟩ := push_spec h.1 item (by omega)
    rw [dif_pos hroom]
    exact ⟨rb', hpush, hinv, by rw [hitems, h.2]⟩
  · rw [dif_neg hroom]
    exact ⟨rb, push_full item (by omega), h⟩

theorem peak_refines {rb : Ringbuffer itemSize itemNum} {q : Fifo (List UInt8) itemNum}
    (h : rb.Abs q) (item : Bool) : ringbufferPeak rb item = some (q.peak item) := by
  have hlen := h.len_eq
  unfold Fifo.peak
  cases hq : q.items with
  | nil =>
      rw [hq] at hlen
      exact peak_empty item hlen
  | cons x rest =>
      rw [hq, List.length_cons] at hlen
      have hcell : rb.cells rb.tail = x := by
        have hwindow : window rb.cells rb.tail rb.len = [] ++ x :: rest := h.2.trans hq
        simpa using buf_slot_of_window hwindow
      rw [peak_spec h.1 item (by omega), hcell]

theorem pop_refines {rb : Ringbuffer itemSize itemNum} {q : Fifo (List UInt8) itemNum}
    (h : rb.Abs q) (item : Bool) :
    ∃ rb', ringbufferPop rb item = some (q.peak item, rb') ∧ rb'.Abs q.tail := by
  have hlen := h.len_eq
  have hpeak := peak_refines h item
  by_cases hne : 0 < rb.len
  · obtain ⟨rb', hpop, hinv, _, _, hitems⟩ := pop_spec h.1 item hne
    rw [peak_spec h.1 item hne] at hpeak
    refine ⟨rb', by rw [hpop, Option.some.inj hpeak], hinv, ?_⟩
    change rb'.items = q.items.tail
    rw [← h.2, hitems, List.tail_cons]
  · have hempty : rb.len = 0 := Nat.eq_zero_of_not_pos hne
    rw [peak_empty item hempty] at hpeak
    refine ⟨rb, by rw [pop_empty item hempty, Option.some.inj hpeak], h.1, ?_⟩
    change rb.items = q.items.tail
    rw [h.2, List.eq_nil_of_length_eq_zero (hlen.symm.trans hempty), List.tail_nil]

/-- Every call answers as the queue does, and stays inside the block. -/
theorem ringbuffer_refines :
    Refines (ringbuffer itemSize itemNum) fifoStep Ringbuffer.Abs := by
  intro rb q op h
  cases op with
  | push item =>
      obtain ⟨rb', hpush, h'⟩ := push_refines h item
      refine ⟨rb', ?_, h'⟩
      simp [ringbuffer, ringbufferStep, hpush, fifoStep]
  | pop item => exact pop_refines h item
  | peak item =>
      refine ⟨rb, ?_, h⟩
      simp [ringbuffer, ringbufferStep, peak_refines h item, fifoStep]
  | getNum =>
      refine ⟨rb, ?_, h⟩
      simp [ringbuffer, ringbufferStep, ringbufferGetNum, fifoStep, h.len_eq]
  | reset =>
      obtain ⟨rb', hreset, hinv, _, hlen⟩ := reset_spec h.1.size
      refine ⟨rb', ?_, hinv, ?_⟩
      · simp [ringbuffer, ringbufferStep, hreset, fifoStep]
      · rw [Ringbuffer.items, hlen]
        rfl

/-- After `ringbuffer_init`, whatever the block held, any sequence of calls is answered
as by a queue of `itemNum` items, without an access outside the block, and a push into
the full buffer changes nothing. -/
theorem ringbuffer_fifo {block : List UInt8} (hblock : block.length = itemNum * itemSize)
    (ops : List (RingbufferOp itemSize)) :
    ∃ rb, (ringbufferInit block).bind (fun rb => (ringbuffer itemSize itemNum).run rb ops) =
        some ((specRun fifoStep (Fifo.empty : Fifo (List UInt8) itemNum) ops).1, rb) ∧
      rb.items = (specRun fifoStep (Fifo.empty : Fifo (List UInt8) itemNum) ops).2.items ∧
      (rb.items.length = itemNum → ∀ item, ringbufferPush rb item = some (0, rb)) := by
  obtain ⟨rb₀, hinit, h₀⟩ := init_spec hblock
  obtain ⟨rb, hrun, h⟩ := ringbuffer_refines.run h₀ ops
  refine ⟨rb, ?_, h.2, ?_⟩
  · rw [hinit]
    exact hrun
  · intro hfull item
    apply push_full
    rw [length_items] at hfull
    exact hfull.ge

end

/-- Items of two bytes in a buffer with one slot: the second one is refused, the first
one comes back. -/
theorem ringbuffer_fifo_oneSlot : ∃ rb : Ringbuffer 2 1,
    (ringbufferInit [7, 8]).bind (fun rb => (ringbuffer 2 1).run rb
      [.push ⟨[1, 2], rfl⟩, .push ⟨[3, 4], rfl⟩, .pop true, .getNum]) =
      some ([⟨1, none⟩, ⟨0, none⟩, ⟨1, some [1, 2]⟩, ⟨0, none⟩], rb) := by
  have hblock : ([7, 8] : List UInt8).length = 1 * 2 := rfl
  obtain ⟨rb, hrun, _⟩ := ringbuffer_fifo hblock
    [.push ⟨[1, 2], rfl⟩, .push ⟨[3, 4], rfl⟩, .pop true, .getNum]
  exact ⟨rb, hrun⟩

end TdPrinter
