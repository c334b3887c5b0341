import TdPrinter.Buffer.Ringbuffer
import TdPrinter.Foundation.Machine

/-!
# The queue with deferred freeing

`ringdata_t` passes pointers to allocated data from a thread to an interrupt routine,
which must not call `free`.  `ringdata_pop` therefore leaves the item in the ring
buffer and only sets its `deleteLater`; the next `ringdata_push` frees the data of the
items so marked and takes them out.  The outer queue, that of the items not popped yet,
has a `tail` and a `len` of its own in the array of the inner one.

`Ringdata.Abs rd flagged waiting` is the coupling of the two: the inner queue is made of
the items that were popped and wait for the next push, and of those not popped yet.
-/

namespace TdPrinter

/-! ## Items -/

/-- `ringdata_item_t`. -/
structure RingdataItem where
  data : UInt32
  size : UInt16
  deleteLater : UInt16
  deriving DecidableEq

def encodeItem (x : RingdataItem) : List UInt8 :=
  toBytes 4 x.data.toNat ++ toBytes 2 x.size.toNat ++ toBytes 2 x.deleteLater.toNat

def decodeItem (bytes : List UInt8) : RingdataItem where
  data := UInt32.ofNat (ofBytes (bytes.take 4))
  size := UInt16.ofNat (ofBytes ((bytes.drop 4).take 2))
  deleteLater := UInt16.ofNat (ofBytes ((bytes.drop 6).take 2))

theorem length_encodeItem (x : RingdataItem) : (encodeItem x).length = 8 := by
  simp [encodeItem]

@[simp]
theorem decode_encode (x : RingdataItem) : decodeItem (encodeItem x) = x := by
  have hdata : (encodeItem x).take 4 = toBytes 4 x.data.toNat := by
    simp [encodeItem]
  have hsize : ((encodeItem x).drop 4).take 2 = toBytes 2 x.size.toNat := by
    simp [encodeItem]
  have hflag : ((encodeItem x).drop 6).take 2 = toBytes 2 x.deleteLater.toNat := by
    simp [encodeItem, List.drop_append, List.drop_of_length_le, List.take_of_length_le]
  rw [decodeItem, hdata, hsize, hflag]
  simp only [ofBytes_toBytes]
  have h₁ := x.data.toNat_lt
  have h₂ := x.size.toNat_lt
  have h₃ := x.deleteLater.toNat_lt
  rw [Nat.mod_eq_of_lt (by omega), Nat.mod_eq_of_lt (by omega), Nat.mod_eq_of_lt (by omega)]
  simp

theorem splice_deleteLater (x : RingdataItem) :
    splice (encodeItem x) 6 (toBytes 2 1) = encodeItem { x with deleteLater := 1 } := by
  simp [splice, encodeItem, List.take_append, List.take_of_length_le, List.drop_of_length_le]

/-! ## The operations -/

/-- `ringdata_t`. -/
structure Ringdata (itemNum : ℕ) where
  rb : Ringbuffer 8 itemNum
  tail : Fin itemNum
  len : ℕ
  deriving DecidableEq

section

variable {itemNum : ℕ} [NeZero itemNum]

/-- `ringdata_reset`. -/
def ringdataReset (rd : Ringdata itemNum) : Option (Ringdata itemNum) :=
  (ringbufferReset rd.rb).map fun rb => { rb, tail := 0, len := 0 }

/-- `ringdata_init`, with the block that `rt_malloc` has returned. -/
def ringdataInit (block : List UInt8) : Option (Ringdata itemNum) :=
  (ringbufferInit block).bind fun rb => ringdataReset { rb, tail := 0, len := 0 }

/-- The loop at the beginning of `ringdata_push`: the pointers it frees, and the inner
queue.  It takes an item out each time, so `rb->len` turns are enough. -/
def reclaim : ℕ → Ringbuffer 8 itemNum → Option (List UInt32 × Ringbuffer 8 itemNum)
  | 0, rb => some ([], rb)
  | n + 1, rb =>
      if rb.len > 0 then
        (ringbufferPeak rb true).bind fun freeItem =>
          freeItem.item.bind fun bytes =>
            if (decodeItem bytes).deleteLater ≠ 0 then
              (ringbufferPop rb false).bind fun r =>
                (reclaim n r.2).map fun q => ((decodeItem bytes).data :: q.1, q.2)
            else some ([], rb)
      else some ([], rb)

/-- `ringdata_push`: its result, and the pointers it frees. -/
def ringdataPush (rd : Ringdata itemNum) (item : RingdataItem) :
    Option (ℤ × List UInt32 × Ringdata itemNum) :=
  (reclaim rd.rb.len rd.rb).bind fun r =>
    (ringbufferPush r.2
      ⟨encodeItem { item with deleteLater := 0 }, length_encodeItem _⟩).map fun q =>
      if q.1 = 1 then (1, r.1, { rd with rb := q.2, len := rd.len + 1 })
      else (0, r.1, { rd with rb := q.2 })

omit [NeZero itemNum] in
/-- The `MEMCPY` of `ringdata_pop` and `ringdata_peak`. -/
def Ringdata.copyItem (rd : Ringdata itemNum) (item : Bool) : Option (Option RingdataItem) :=
  if item then (loadBytes rd.rb.buffer (rd.tail * 8) 8).map fun bytes => some (decodeItem bytes)
  else some none

/-- `ringdata_pop`; `deleteLater` is at offset 6 of the item. -/
def ringdataPop (rd : Ringdata itemNum) (item : Bool) :
    Option (Answer RingdataItem × Ringdata itemNum) :=
  if rd.len > 0 then
    (rd.copyItem item).bind fun entry =>
      (storeBytes rd.rb.buffer (rd.tail * 8 + 6) (toBytes 2 1)).map fun buffer =>
        (⟨1, entry⟩,
          { rb := { rd.rb with buffer }, tail := slot rd.tail 1, len := rd.len - 1 })
  else some (⟨0, none⟩, rd)

omit [NeZero itemNum] in
/-- `ringdata_peak`. -/
def ringdataPeak (rd : Ringdata itemNum) (item : Bool) : Option (Answer RingdataItem) :=
  if rd.len > 0 then (rd.copyItem item).map fun entry => ⟨1, entry⟩
  else some ⟨0, none⟩

/-! ## The two queues -/

def Ringdata.inner (rd : Ringdata itemNum) : List RingdataItem :=
  rd.rb.items.map decodeItem

/-- The outer queue: the items that were not popped yet. -/
def Ringdata.undelivered (rd : Ringdata itemNum) : List RingdataItem :=
  window (fun i => decodeItem (rd.rb.cells i)) rd.tail rd.len

/-- The inner queue is made of popped items that wait to be freed and of the items of
the outer queue. -/
structure Ringdata.Abs (rd : Ringdata itemNum) (flagged waiting : List RingdataItem) : Prop where
  inv : rd.rb.Inv
  items : rd.rb.items = (flagged ++ waiting).map encodeItem
  tail : rd.tail = slot rd.rb.tail flagged.length
  len : rd.len = waiting.length
  set : ∀ x ∈ flagged, x.deleteLater ≠ 0
  clear : ∀ x ∈ waiting, x.deleteLater = 0

theorem Ringdata.Abs.rb_len {rd : Ringdata itemNum} {flagged waiting : List RingdataItem}
    (h : rd.Abs flagged waiting) : rd.rb.len = flagged.length + waiting.length := by
  rw [← length_items, h.items, List.length_map, List.length_append]

theorem Ringdata.Abs.inner_eq {rd : Ringdata itemNum} {flagged waiting : List RingdataItem}
    (h : rd.Abs flagged waiting) : rd.inner = flagged ++ waiting := by
  rw [Ringdata.inner, h.items, List.map_map]
  simp [Function.comp_def]

theorem Ringdata.Abs.undelivered_eq {rd : Ringdata itemNum}
    {flagged waiting : List RingdataItem} (h : rd.Abs flagged waiting) :
    rd.undelivered = waiting := by
  have hsplit : window rd.rb.cells rd.rb.tail flagged.length ++
      window rd.rb.cells rd.tail waiting.length =
      flagged.map encodeItem ++ waiting.map encodeItem := by
    rw [h.tail, ← window_add, ← h.rb_len, ← List.map_append]
    exact h.items
  have hwaiting := List.append_inj_right hsplit (by simp)
  calc rd.undelivered = (window rd.rb.cells rd.tail waiting.length).map decodeItem := by
        rw [map_window, ← h.len]
        rfl
    _ = waiting := by
        rw [hwaiting, List.map_map]
        simp [Function.comp_def]

/-! ## What each operation does -/

theorem ringdataInit_spec {block : List UInt8} (hblock : block.length = itemNum * 8) :
    ∃ rd : Ringdata itemNum, ringdataInit block = some rd ∧ rd.Abs [] [] := by
  obtain ⟨rb₀, hinit, h₀⟩ := @init_spec 8 itemNum _ block hblock
  obtain ⟨rb, hreset, hinv, htail, hlen⟩ := reset_spec h₀.1.size
  refine ⟨⟨rb, 0, 0⟩, ?_, hinv, ?_, ?_, rfl, by simp, by simp⟩
  · simp [ringdataInit, ringdataReset, hinit, hreset]
  · rw [Ringbuffer.items, hlen]
    rfl
  · simp [htail]

/-- The oldest item of the inner queue, as the loop of `ringdata_push` reads it. -/
theorem oldest_of_items {rb : Ringbuffer 8 itemNum} {x : RingdataItem} {rest : List RingdataItem}
    (hitems : rb.items = (x :: rest).map encodeItem) : rb.cells rb.tail = encodeItem x := by
  have hwindow : window rb.cells rb.tail rb.len =
      [] ++ encodeItem x :: rest.map encodeItem := hitems
  simpa using buf_slot_of_window hwindow

/-- The loop frees the marked items at the front of the inner queue, and stops at the
first one that was not popped yet. -/
theorem reclaim_spec {n : ℕ} {rb : Ringbuffer 8 itemNum} (h : rb.Inv)
    {flagged waiting : List RingdataItem} (hitems : rb.items = (flagged ++ waiting).map encodeItem)
    (hset : ∀ x ∈ flagged, x.deleteLater ≠ 0) (hclear : ∀ x ∈ waiting, x.deleteLater = 0)
    (hn : rb.len ≤ n) :
    ∃ rb', reclaim n rb = some (flagged.map RingdataItem.data, rb') ∧ rb'.Inv ∧
      rb'.items = waiting.map encodeItem ∧ rb'.tail = slot rb.tail flagged.length := by
  have hlen : rb.len = flagged.length + waiting.length := by
    rw [← length_items, hitems, List.length_map, List.length_append]
  induction n generalizing rb flagged with
  | zero =>
      have hnil : flagged = [] := List.eq_nil_of_length_eq_zero (by omega)
      subst hnil
      exact ⟨rb, rfl, h, hitems, by simp⟩
  | succ n ih =>
      cases flagged with
      | nil =>
          refine ⟨rb, ?_, h, hitems, by simp⟩
          rw [reclaim]
          split
          · rename_i hne
            cases waiting with
            | nil => simp at hlen; omega
            | cons x rest =>
                have hx : x.deleteLater = 0 := hclear x (by simp)
                simp [peak_spec h true hne, oldest_of_items hitems, hx]
          · rfl
      | cons x rest =>
          have hne : 0 < rb.len := by rw [hlen, List.length_cons]; omega
          have hx : x.deleteLater ≠ 0 := hset x (by simp)
          have hcell : rb.cells rb.tail = encodeItem x := oldest_of_items hitems
          obtain ⟨rb', hpop, hinv, htail, hlen', hitems'⟩ := pop_spec h false hne
          rw [hitems, List.cons_append, List.map_cons, hcell, List.cons.injEq] at hitems'
          obtain ⟨rb'', hreclaim, hinv'', hitems'', htail''⟩ :=
            ih hinv hitems'.2.symm (fun y hy => hset y (List.mem_cons_of_mem _ hy)) (by omega)
              (by rw [List.length_cons] at hlen; omega)
          refine ⟨rb'', ?_, hinv'', hitems'', ?_⟩
          · rw [reclaim, if_pos hne, peak_spec h true hne, hcell]
            simp [hx, hpop, hreclaim]
          · rw [htail'', htail, slot_slot, List.length_cons, Nat.add_comm]

/-- A push frees what is marked, and takes the item unless `itemNum` items wait. -/
theorem ringdataPush_spec {rd : Ringdata itemNum} {flagged waiting : List RingdataItem}
    (h : rd.Abs flagged waiting) (item : RingdataItem) :
    ∃ rd', if waiting.length < itemNum then
        ringdataPush rd item = some (1, flagged.map RingdataItem.data, rd') ∧
          rd'.Abs [] (waiting ++ [{ item with deleteLater := 0 }])
      else ringdataPush rd item = some (0, flagged.map RingdataItem.data, rd') ∧
          rd'.Abs [] waiting := by
  obtain ⟨rb, hreclaim, hinv, hitems, htail⟩ :=
    reclaim_spec h.inv h.items h.set h.clear le_rfl
  have hlen : rb.len = waiting.length := by rw [← length_items, hitems, List.length_map]
  have hrd : rd.tail = slot rb.tail 0 := by rw [h.tail, htail, slot_zero]
  split
  · rename_i hroom
    obtain ⟨rb', hpush, hinv', htail', _, hitems'⟩ := push_spec hinv
      ⟨encodeItem { item with deleteLater := 0 }, length_encodeItem _⟩ (by omega)
    refine ⟨{ rd with rb := rb', len := rd.len + 1 }, ?_, hinv', ?_, ?_, ?_, by simp, ?_⟩
    · simp [ringdataPush, hreclaim, hpush]
    · simp [hitems', hitems]
    · rw [hrd, htail']
      rfl
    · simp [h.len]
    · intro x hx
      rcases List.mem_append.mp hx with hold | hnew
      · exact h.clear x hold
      · rw [List.mem_singleton.mp hnew]
  · rename_i hfull
    refine ⟨{ rd with rb := rb }, ?_, hinv, by simpa using hitems, hrd, h.len, by simp, h.clear⟩
    simp [ringdataPush, hreclaim, push_full _ (show itemNum ≤ rb.len by omega)]

/-- The inner queue around the item that is popped next. -/
theorem Ringdata.Abs.window_eq {rd : Ringdata itemNum} {flagged waiting : List RingdataItem}
    {x : RingdataItem} (h : rd.Abs flagged (x :: waiting)) :
    window rd.rb.cells rd.rb.tail rd.rb.len =
      flagged.map encodeItem ++ encodeItem x :: waiting.map encodeItem := by
  rw [← List.map_cons, ← List.map_append]
  exact h.items

theorem ringdataCopy_spec {rd : Ringdata itemNum} {flagged waiting : List RingdataItem}
    {x : RingdataItem} (h : rd.Abs flagged (x :: waiting)) :
    rd.rb.cells rd.tail = encodeItem x ∧
      ∀ item, rd.copyItem item = some (if item then some x else none) := by
  have hcell : rd.rb.cells rd.tail = encodeItem x := by
    rw [h.tail]
    simpa using buf_slot_of_window h.window_eq
  refine ⟨hcell, fun item => ?_⟩
  have hload := loadBytes_cell (item_in_block h.inv.size rd.tail)
  rw [Ringdata.copyItem, hload]
  change (if item then some (some (decodeItem (rd.rb.cells rd.tail))) else some none) = _
  rw [hcell, decode_encode]
  split <;> rfl

/-- A pop moves the oldest item that waits to those marked. -/
theorem ringdataPop_spec {rd : Ringdata itemNum} {flagged waiting : List RingdataItem}
    {x : RingdataItem} (h : rd.Abs flagged (x :: waiting)) (item : Bool) :
    ∃ rd', ringdataPop rd item = some (⟨1, if item then some x else none⟩, rd') ∧
      rd'.Abs (flagged ++ [{ x with deleteLater := 1 }]) waiting := by
  obtain ⟨hcell, hcopy⟩ := ringdataCopy_spec h
  have hlen : rd.len = waiting.length + 1 := h.len
  have hfit := item_in_block h.inv.size rd.tail
  have hbytes : 6 + (toBytes 2 1).length ≤ 8 := by simp
  have hstore := storeBytes_cell hfit hbytes
  have hcells := cells_splice rd.tail h.inv.size hbytes rfl
  rw [hcell, splice_deleteLater] at hcells
  have hupdate := window_update h.inv.bounded h.window_eq (encodeItem { x with deleteLater := 1 })
  rw [List.length_map, ← h.tail, ← hcells] at hupdate
  refine ⟨{
      rb := { rd.rb with buffer := splice rd.rb.buffer (rd.tail * 8 + 6) (toBytes 2 1) }
      tail := slot rd.tail 1
      len := rd.len - 1 }, ?_, ⟨?_, h.inv.bounded, h.inv.head_eq⟩, ?_, ?_, ?_, ?_, ?_⟩
  · rw [ringdataPop, if_pos (by omega), hcopy, Option.bind_some, hstore]
    rfl
  · rw [length_splice (by rw [length_toBytes]; omega), h.inv.size]
  · refine hupdate.trans ?_
    simp
  · change slot rd.tail 1 = slot rd.rb.tail (flagged ++ [_]).length
    rw [h.tail, slot_slot, List.length_append, List.length_singleton]
  · change rd.len - 1 = waiting.length
    omega
  · intro y hy
    rcases List.mem_append.mp hy with hold | hnew
    · exact h.set y hold
    · rw [List.mem_singleton.mp hnew]
      simp
  · exact fun y hy => h.clear y (List.mem_cons_of_mem _ hy)

theorem ringdataPop_empty {rd : Ringdata itemNum} (item : Bool) (hempty : rd.len = 0) :
    ringdataPop rd item = some (⟨0, none⟩, rd) := if_neg (by omega)

theorem ringdataPeak_spec {rd : Ringdata itemNum} {flagged waiting : List RingdataItem}
    (h : rd.Abs flagged waiting) (item : Bool) :
    ringdataPeak rd item =
      some ⟨if waiting = [] then 0 else 1, if item then waiting.head? else none⟩ := by
  have hlen := h.len
  unfold ringdataPeak
  cases waiting with
  | nil =>
      rw [if_neg (by simp [hlen])]
      simp
  | cons x rest => simp [hlen, (ringdataCopy_spec h).2 item]

end

/-! ## Runs -/

/-- The queue, and what has happened to it. -/
structure RingdataRun (itemNum : ℕ) where
  ringdata : Ringdata itemNum
  /-- the pointers of all items given to `ringdata_push` -/
  pushed : List UInt32
  /-- the items it has taken -/
  accepted : List RingdataItem
  popped : List RingdataItem
  freed : List UInt32
  /-- the pointers popped since the last push -/
  recent : List UInt32

inductive RingdataOp
  | push (item : RingdataItem)
  | pop (item : Bool)
  | peak (item : Bool)

section

variable {itemNum : ℕ} [NeZero itemNum]

omit [NeZero itemNum] in
/-- After a push with the result `code`. -/
def RingdataRun.afterPush (s : RingdataRun itemNum) (item : RingdataItem) (code : ℤ)
    (freed : List UInt32) (rd : Ringdata itemNum) : RingdataRun itemNum where
  ringdata := rd
  pushed := s.pushed ++ [item.data]
  accepted := if code = 1 then s.accepted ++ [{ item with deleteLater := 0 }] else s.accepted
  popped := s.popped
  freed := s.freed ++ freed
  recent := []

/-- After a pop with the result `code`: what has left the outer queue is its first item. -/
def RingdataRun.afterPop (s : RingdataRun itemNum) (code : ℤ) (rd : Ringdata itemNum) :
    RingdataRun itemNum :=
  let left := if code = 1 then s.ringdata.undelivered.take 1 else []
  { s with
    ringdata := rd
    popped := s.popped ++ left
    recent := s.recent ++ left.map RingdataItem.data }

def RingdataRun.step (s : RingdataRun itemNum) : RingdataOp → Option (RingdataRun itemNum)
  | .push item => (ringdataPush s.ringdata item).map fun r => s.afterPush item r.1 r.2.1 r.2.2
  | .pop item => (ringdataPop s.ringdata item).map fun r => s.afterPop r.1.code r.2
  | .peak item => (ringdataPeak s.ringdata item).map fun _ => s

variable (itemNum) in
def ringdata : Machine (RingdataRun itemNum) RingdataOp := ⟨RingdataRun.step⟩

omit [NeZero itemNum] in
/-- The queue after `ringdata_init`. -/
def RingdataRun.start (rd : Ringdata itemNum) : RingdataRun itemNum := ⟨rd, [], [], [], [], []⟩

/-- An item of the inner queue that was popped. -/
def RingdataItem.flagged (x : RingdataItem) : Bool := x.deleteLater ≠ 0

/-- What the users of the queue rely on. -/
structure RingdataRun.Spec (s : RingdataRun itemNum) : Prop where
  /-- what was taken is what was popped, in the same order, and what is still there -/
  delivered : s.accepted = s.popped ++ s.ringdata.undelivered
  /-- data is freed after it was popped, in this order -/
  freed_popped : s.freed <+: s.popped.map RingdataItem.data
  freed_once : s.freed.Nodup
  recent_kept : ∀ p ∈ s.recent, p ∈ s.popped.map RingdataItem.data ∧ p ∉ s.freed
  inner_len : s.ringdata.rb.len =
    s.ringdata.len + (s.ringdata.inner.filter RingdataItem.flagged).length
  flagged_prefix : s.ringdata.inner.filter RingdataItem.flagged <+: s.ringdata.inner
  outer_tail : (s.ringdata.tail : ℕ) =
    (s.ringdata.rb.tail + s.ringdata.rb.len - s.ringdata.len) % itemNum
  /-- the next push fails if and only if `itemNum` items wait, and then loses none -/
  push : ∀ item, ∃ code freed rd', ringdataPush s.ringdata item = some (code, freed, rd') ∧
    (code = 0 ↔ s.ringdata.undelivered.length = itemNum) ∧
    (code = 0 → rd'.undelivered = s.ringdata.undelivered)
  /-- the next pop delivers the oldest item that waits -/
  pop : ∀ item, ∃ rd', ringdataPop s.ringdata item =
      some (⟨if s.ringdata.undelivered = [] then 0 else 1,
        if item then s.ringdata.undelivered.head? else none⟩, rd') ∧
    rd'.undelivered = s.ringdata.undelivered.tail
  /-- and the next peak shows it -/
  peak : ∀ item, ringdataPeak s.ringdata item =
      some ⟨if s.ringdata.undelivered = [] then 0 else 1,
        if item then s.ringdata.undelivered.head? else none⟩

def RingdataRun.Inv (s : RingdataRun itemNum) : Prop :=
  ∃ flagged waiting, s.ringdata.Abs flagged waiting ∧ waiting.length ≤ itemNum ∧
    s.accepted = s.popped ++ waiting ∧
    s.popped.map RingdataItem.data = s.freed ++ flagged.map RingdataItem.data ∧
    s.recent <:+ flagged.map RingdataItem.data ∧
    (s.accepted.map RingdataItem.data).Sublist s.pushed

theorem start_ringdataInv {rd : Ringdata itemNum} (h : rd.Abs [] []) :
    (RingdataRun.start rd).Inv :=
  ⟨[], [], h, Nat.zero_le _, rfl, rfl, List.suffix_rfl, List.Sublist.refl _⟩

theorem push_keeps {s : RingdataRun itemNum} (h : s.Inv) (item : RingdataItem) :
    ∃ t, s.step (.push item) = some t ∧ t.Inv := by
  obtain ⟨flagged, waiting, habs, hbound, haccepted, hpopped, hrecent, hsub⟩ := h
  obtain ⟨rd', hpush⟩ := ringdataPush_spec habs item
  split at hpush
  · rename_i hroom
    obtain ⟨hpush, habs'⟩ := hpush
    refine ⟨s.afterPush item 1 (flagged.map RingdataItem.data) rd', ?_,
      [], _, habs', ?_, ?_, ?_, List.suffix_rfl, ?_⟩
    · simp [RingdataRun.step, hpush]
    · simpa using Nat.succ_le_of_lt hroom
    · simp [RingdataRun.afterPush, haccepted]
    · simpa [RingdataRun.afterPush] using hpopped
    · simpa [RingdataRun.afterPush] using hsub.append (List.Sublist.refl [item.data])
  · obtain ⟨hpush, habs'⟩ := hpush
    refine ⟨s.afterPush item 0 (flagged.map RingdataItem.data) rd', ?_,
      [], waiting, habs', hbound, ?_, ?_, List.suffix_rfl, ?_⟩
    · simp [RingdataRun.step, hpush]
    · simpa [RingdataRun.afterPush] using haccepted
    · simpa [RingdataRun.afterPush] using hpopped
    · exact hsub.trans (List.sublist_append_left _ _)

theorem pop_keeps {s : RingdataRun itemNum} (h : s.Inv) (item : Bool) :
    ∃ t, s.step (.pop item) = some t ∧ t.Inv := by
  obtain ⟨flagged, waiting, habs, hbound, haccepted, hpopped, hrecent, hsub⟩ := h
  have hundelivered := habs.undelivered_eq
  cases waiting with
  | nil =>
      have hpop := ringdataPop_empty item habs.len
      refine ⟨s.afterPop 0 s.ringdata, ?_, flagged, [], habs, hbound, ?_, ?_, ?_, hsub⟩
      · simp [RingdataRun.step, hpop]
      · simpa [RingdataRun.afterPop] using haccepted
      · simpa [RingdataRun.afterPop] using hpopped
      · simpa [RingdataRun.afterPop] using hrecent
  | cons x rest =>
      obtain ⟨rd', hpop, habs'⟩ := ringdataPop_spec habs item
      refine ⟨s.afterPop 1 rd', ?_, _, rest, habs', ?_, ?_, ?_, ?_, hsub⟩
      · simp [RingdataRun.step, hpop]
      · rw [List.length_cons] at hbound
        omega
      · simp [RingdataRun.afterPop, haccepted, hundelivered]
      · simp [RingdataRun.afterPop, hpopped, hundelivered]
      · obtain ⟨front, hfront⟩ := hrecent
        exact ⟨front, by simp [RingdataRun.afterPop, hundelivered, ← hfront]⟩

/-- Every call is possible, and keeps the invariant. -/
theorem ringdata_keeps (s : RingdataRun itemNum) (op : RingdataOp) (h : s.Inv) :
    ∃ t, (ringdata itemNum).step s op = some t ∧ t.Inv := by
  cases op with
  | push item => exact push_keeps h item
  | pop item => exact pop_keeps h item
  | peak item =>
      have hinv := h
      obtain ⟨flagged, waiting, habs, _⟩ := h
      refine ⟨s, ?_, hinv⟩
      simp [ringdata, RingdataRun.step, ringdataPeak_spec habs item]

theorem Ringdata.Abs.filter_inner {rd : Ringdata itemNum} {flagged waiting : List RingdataItem}
    (h : rd.Abs flagged waiting) : rd.inner.filter RingdataItem.flagged = flagged := by
  rw [h.inner_eq, List.filter_append]
  have hfront : flagged.filter RingdataItem.flagged = flagged := by
    apply List.filter_eq_self.mpr
    intro x hx
    simpa [RingdataItem.flagged] using h.set x hx
  have hback : waiting.filter RingdataItem.flagged = [] := by
    apply List.filter_eq_nil_iff.mpr
    intro x hx
    simpa [RingdataItem.flagged] using h.clear x hx
  rw [hfront, hback, List.append_nil]

theorem Ringdata.Abs.push_answer {rd : Ringdata itemNum} {flagged waiting : List RingdataItem}
    (h : rd.Abs flagged waiting) (hbound : waiting.length ≤ itemNum) (item : RingdataItem) :
    ∃ code freed rd', ringdataPush rd item = some (code, freed, rd') ∧
      (code = 0 ↔ rd.undelivered.length = itemNum) ∧
      (code = 0 → rd'.undelivered = rd.undelivered) := by
  obtain ⟨rd', hpush⟩ := ringdataPush_spec h item
  rw [h.undelivered_eq]
  split at hpush
  · obtain ⟨hpush, _⟩ := hpush
    exact ⟨1, _, rd', hpush, by omega, by simp⟩
  · obtain ⟨hpush, h'⟩ := hpush
    exact ⟨0, _, rd', hpush, by omega, fun _ => h'.undelivered_eq⟩

theorem Ringdata.Abs.pop_answer {rd : Ringdata itemNum} {flagged waiting : List RingdataItem}
    (h : rd.Abs flagged waiting) (item : Bool) :
    ∃ rd', ringdataPop rd item = some (⟨if rd.undelivered = [] then 0 else 1,
        if item then rd.undelivered.head? else none⟩, rd') ∧
      rd'.undelivered = rd.undelivered.tail := by
  have hundelivered := h.undelivered_eq
  rw [hundelivered]
  cases waiting with
  | nil =>
      refine ⟨rd, ?_, hundelivered⟩
      rw [ringdataPop_empty item h.len]
      simp
  | cons x rest =>
      obtain ⟨rd', hpop, h'⟩ := ringdataPop_spec h item
      refine ⟨rd', ?_, h'.undelivered_eq⟩
      rw [hpop]
      simp

theorem RingdataRun.Inv.spec {s : RingdataRun itemNum} (h : s.Inv) (hdistinct : s.pushed.Nodup) :
    s.Spec := by
  obtain ⟨flagged, waiting, habs, hbound, haccepted, hpopped, hrecent, hsub⟩ := h
  have hundelivered := habs.undelivered_eq
  have hnodup : (s.freed ++ flagged.map RingdataItem.data).Nodup := by
    rw [← hpopped]
    refine List.Nodup.sublist ?_ (hdistinct.sublist hsub)
    rw [haccepted]
    exact (List.sublist_append_left _ _).map _
  refine ⟨?_, ?_, ?_, ?_, ?_, ?_, ?_, ?_, ?_, ?_⟩
  · rw [hundelivered, haccepted]
  · rw [hpopped]
    exact List.prefix_append _ _
  · exact (List.nodup_append.mp hnodup).1
  · intro p hp
    have hmem := hrecent.subset hp
    refine ⟨by rw [hpopped]; exact List.mem_append_right _ hmem, fun hfreed => ?_⟩
    exact (List.nodup_append.mp hnodup).2.2 p hfreed p hmem rfl
  · rw [habs.filter_inner, habs.rb_len, habs.len, Nat.add_comm]
  · rw [habs.filter_inner, habs.inner_eq]
    exact List.prefix_append _ _
  · rw [habs.tail, habs.rb_len, habs.len, ← Nat.add_assoc, Nat.add_sub_cancel]
    rfl
  · exact habs.push_answer hbound
  · exact habs.pop_answer
  · intro item
    rw [hundelivered]
    exact ringdataPeak_spec habs item

/-- After `ringdata_init`, whatever the block held, every sequence of calls can be made,
and as long as the pointers pushed are distinct the queue does what its users rely on. -/
theorem ringdata_deferred {block : List UInt8} (hblock : block.length = itemNum * 8)
    (ops : List RingdataOp) :
    ∃ rd s, ringdataInit block = some rd ∧
      (ringdata itemNum).exec (RingdataRun.start rd) ops = some s ∧
      (s.pushed.Nodup → s.Spec) := by
  obtain ⟨rd, hinit, habs⟩ := ringdataInit_spec hblock
  obtain ⟨s, hexec, hinv⟩ := Machine.exec_total ringdata_keeps (start_ringdataInv habs) ops
  exact ⟨rd, s, hinit, hexec, hinv.spec⟩

end

/-- In a queue with one slot, data that was popped is freed by the push that needs its
place. -/
theorem ringdata_deferred_oneSlot : ∃ rd s,
    ringdataInit (List.replicate 8 0) = some rd ∧
      (ringdata 1).exec (RingdataRun.start rd)
        [.push ⟨100, 4, 0⟩, .pop true, .push ⟨200, 4, 0⟩] = some s ∧
      s.freed = [100] ∧ s.Spec := by
  have hblock : (List.replicate 8 (0 : UInt8)).length = 1 * 8 := rfl
  obtain ⟨rd, s, hinit, hexec, hspec⟩ := ringdata_deferred hblock
    [.push ⟨100, 4, 0⟩, .pop true, .push ⟨200, 4, 0⟩]
  have hlogs : ((ringdataInit (List.replicate 8 0)).bind fun rd =>
      ((ringdata 1).exec (RingdataRun.start rd)
        [.push ⟨100, 4, 0⟩, .pop true, .push ⟨200, 4, 0⟩]).map fun s =>
          (s.pushed, s.freed)) = some ([100, 200], [100]) := by decide
  simp only [hinit, hexec, Option.bind_some, Option.map_some, Option.some.injEq,
    Prod.mk.injEq] at hlogs
  refine ⟨rd, s, hinit, hexec, hlogs.2, hspec ?_⟩
  rw [hlogs.1]
  decide

end TdPrinter
