import TdPrinter.Buffer.Ringbuffer
import TdPrinter.Foundation.Machine

/-!
# Sending over a serial port

`rt_serial_write` pushes one byte at a time into `txIntBuf`, with interrupts disabled around the
push, and enables the transmit interrupt afterwards, when they are on again.  The interrupt
takes one byte and puts it on the wire, and disables itself when there is none.  Any number of
threads write at the same time.

A thread is at one of a few points, and `run i` takes it to the next; between two such steps the
other threads and the interrupt may do anything.  That the interrupt is not disabled for good is
`noStall`: while the buffer has a byte, the interrupt is enabled or somebody is about to enable
it.
-/

namespace TdPrinter

/-- `RT_SERIAL_RB_BUFSZ`. -/
abbrev serialRbBufsz : ℕ := 256

/-- Where a call of `rt_serial_write` is: not begun, at the head of the loop, in front of
`RT_DEVICE_CTRL_SET_INT`, in `rt_thread_delay`, or returned. -/
inductive WritePhase
  | start
  | loop
  | setInt
  | delay
  | done (nbytes : ℕ)

/-- A call, with `ptr - buffer` and `size`. -/
structure SerialWriter where
  phase : WritePhase
  ptr : ℕ
  size : ℕ

/-- The port: the buffer, the bytes that `putc` has had, whether the transmit interrupt is
enabled, the calls, and what they have pushed. -/
structure SerialTx (ι : Type*) where
  txIntBuf : Ringbuffer 1 serialRbBufsz
  wire : List UInt8
  txInt : Bool
  writers : ι → SerialWriter
  pushed : List (ι × UInt8)

/-- A thread goes on, or the interrupt occurs. -/
inductive SerialAction (ι : Type*)
  | run (i : ι)
  | isr

section

variable {ι : Type*} [DecidableEq ι]

omit [DecidableEq ι] in
/-- Before the first call; `rt_serial_open` has enabled the transmit interrupt, which may have
disabled itself since. -/
def SerialTx.boot (rb : Ringbuffer 1 serialRbBufsz) (txInt : Bool) : SerialTx ι :=
  ⟨rb, [], txInt, fun _ => ⟨.start, 0, 0⟩, []⟩

/-- The call `i` is now at `w`. -/
def SerialTx.setWriter (s : SerialTx ι) (i : ι) (w : SerialWriter) : SerialTx ι :=
  { s with writers := Function.update s.writers i w }

def SerialTx.writeLoop (data : ι → List UInt8) (s : SerialTx ι) (i : ι) : Option (SerialTx ι) :=
  let w := s.writers i
  if w.size = 0 then some (s.setWriter i { w with phase := .done w.ptr })
  else
    (data i)[w.ptr]?.bind fun b =>
      (ringbufferPush s.txIntBuf ⟨[b], List.length_singleton⟩).map fun r =>
        if r.1 ≠ 0 then
          { s with txIntBuf := r.2, pushed := s.pushed ++ [(i, b)] }.setWriter i
            ⟨.setInt, w.ptr + 1, w.size - 1⟩
        else { s with txIntBuf := r.2 }.setWriter i { w with phase := .delay }

/-- The next step of `rt_serial_write(dev,pos,data i,size)`. -/
def SerialTx.run (data : ι → List UInt8) (s : SerialTx ι) (i : ι) : Option (SerialTx ι) :=
  let w := s.writers i
  match w.phase with
  | .start =>
      let size := (data i).length
      some (s.setWriter i (if size = 0 then ⟨.done 0, 0, 0⟩ else ⟨.loop, 0, size⟩))
  | .loop => s.writeLoop data i
  | .setInt => some ({ s with txInt := true }.setWriter i { w with phase := .loop })
  | .delay => some (s.setWriter i { w with phase := .loop })
  | .done _ => some s

omit [DecidableEq ι] in
/-- `rt_hw_serial_int_tx_isr`. -/
def SerialTx.isr (s : SerialTx ι) : Option (SerialTx ι) :=
  (ringbufferPop s.txIntBuf true).bind fun r =>
    if 1 = r.1.code then
      (r.1.item.bind List.head?).map fun ch =>
        { s with txIntBuf := r.2, wire := s.wire ++ [ch] }
    else some { s with txIntBuf := r.2, txInt := false }

/-- The port as a machine, for calls with the given data. -/
def serialTx (data : ι → List UInt8) : Machine (SerialTx ι) (SerialAction ι) where
  step s
    | .run i => s.run data i
    | .isr => s.isr

/-- What the call `i` has pushed. -/
def bytesOf (i : ι) (pushed : List (ι × UInt8)) : List UInt8 :=
  (pushed.filter fun p => p.1 = i).map Prod.snd

/-- Nothing is lost, doubled or changed in order, and the bytes left will go out. -/
structure SerialTx.Lossless (data : ι → List UInt8) (s : SerialTx ι) : Prop where
  wire_eq : s.wire ++ s.txIntBuf.items.flatten = s.pushed.map Prod.snd
  bytesOf_eq : ∀ i, bytesOf i s.pushed = (data i).take (s.writers i).ptr
  done_eq : ∀ i nbytes, (s.writers i).phase = .done nbytes →
    nbytes = (data i).length ∧ bytesOf i s.pushed = data i
  noStall : (∀ i, (s.writers i).phase ≠ .setInt) → s.txIntBuf.items ≠ [] → s.txInt = true

/-! ## One call -/

/-- A call that has pushed `sent` of `data`. -/
structure SerialWriter.Follows (w : SerialWriter) (data sent : List UInt8) : Prop where
  sent_eq : sent = data.take w.ptr
  start_eq : w.phase = .start → w.ptr = 0
  size_eq : w.phase = .loop ∨ w.phase = .setInt ∨ w.phase = .delay → w.ptr + w.size = data.length
  done_eq : ∀ nbytes, w.phase = .done nbytes → nbytes = data.length ∧ w.ptr = data.length

theorem bytesOf_append_self (i : ι) (pushed : List (ι × UInt8)) (b : UInt8) :
    bytesOf i (pushed ++ [(i, b)]) = bytesOf i pushed ++ [b] := by
  simp [bytesOf, List.filter_append]

theorem bytesOf_append_of_ne {i j : ι} (hij : j ≠ i) (pushed : List (ι × UInt8)) (b : UInt8) :
    bytesOf j (pushed ++ [(i, b)]) = bytesOf j pushed := by
  simp [bytesOf, List.filter_append, hij.symm]

/-! ## All of them -/

structure SerialTx.Sound (data : ι → List UInt8) (s : SerialTx ι) : Prop where
  inv : s.txIntBuf.Inv
  fifo : (s.wire.map fun b => [b]) ++ s.txIntBuf.items = s.pushed.map fun p => [p.2]
  follows : ∀ i, (s.writers i).Follows (data i) (bytesOf i s.pushed)
  noStall : s.txIntBuf.items ≠ [] → s.txInt = true ∨ ∃ i, (s.writers i).phase = .setInt

variable {data : ι → List UInt8} {s : SerialTx ι}

theorem SerialTx.Sound.lossless (h : s.Sound data) : s.Lossless data where
  wire_eq := by
    have hflat := congrArg List.flatten h.fifo
    rwa [List.flatten_append, ← List.flatMap_def, ← List.flatMap_def, List.flatMap_singleton',
      ← List.map_eq_flatMap] at hflat
  bytesOf_eq i := (h.follows i).sent_eq
  done_eq i nbytes hdone := by
    obtain ⟨hn, hptr⟩ := (h.follows i).done_eq nbytes hdone
    exact ⟨hn, by rw [(h.follows i).sent_eq, hptr, List.take_length]⟩
  noStall hnone hne := by
    rcases h.noStall hne with hint | ⟨i, hi⟩
    · exact hint
    · exact absurd hi (hnone i)

theorem SerialTx.Sound.setWriter (h : s.Sound data) {i : ι} {w : SerialWriter}
    (hw : w.Follows (data i) (bytesOf i s.pushed))
    (hint : (s.writers i).phase = .setInt → s.txInt = true) : (s.setWriter i w).Sound data where
  inv := h.inv
  fifo := h.fifo
  follows j := by
    by_cases hj : j = i
    · subst hj
      show (Function.update s.writers j w j).Follows (data j) (bytesOf j s.pushed)
      rwa [Function.update_self]
    · show (Function.update s.writers i w j).Follows (data j) (bytesOf j s.pushed)
      rw [Function.update_of_ne hj]
      exact h.follows j
  noStall hne := by
    rcases h.noStall hne with henabled | ⟨j, hj⟩
    · exact .inl henabled
    · by_cases hji : j = i
      · subst hji
        exact .inl (hint hj)
      · refine .inr ⟨j, ?_⟩
        show (Function.update s.writers i w j).phase = .setInt
        rwa [Function.update_of_ne hji]

theorem SerialTx.Sound.push (h : s.Sound data) {i : ι} {b : UInt8}
    (hloop : (s.writers i).phase = .loop) (hb : (data i)[(s.writers i).ptr]? = some b)
    {rb : Ringbuffer 1 serialRbBufsz} (hinv : rb.Inv)
    (hitems : rb.items = s.txIntBuf.items ++ [[b]]) :
    (SerialTx.setWriter { s with txIntBuf := rb, pushed := s.pushed ++ [(i, b)] } i
      ⟨.setInt, (s.writers i).ptr + 1, (s.writers i).size - 1⟩).Sound data where
  inv := hinv
  fifo := by
    show (s.wire.map fun b => [b]) ++ rb.items = (s.pushed ++ [(i, b)]).map fun p => [p.2]
    rw [hitems, ← List.append_assoc, h.fifo, List.map_append, List.map_singleton]
  follows j := by
    have hi := h.follows i
    have hlt : (s.writers i).ptr < (data i).length := (List.getElem?_eq_some_iff.mp hb).1
    by_cases hj : j = i
    · subst hj
      show (Function.update s.writers j _ j).Follows (data j) (bytesOf j (s.pushed ++ [(j, b)]))
      rw [Function.update_self, bytesOf_append_self, hi.sent_eq]
      refine ⟨?_, by simp, fun _ => ?_, by simp⟩
      · rw [List.take_add_one, hb]
        rfl
      · have hsize := hi.size_eq (.inl hloop)
        show (s.writers j).ptr + 1 + ((s.writers j).size - 1) = (data j).length
        omega
    · show (Function.update s.writers i _ j).Follows (data j) (bytesOf j (s.pushed ++ [(i, b)]))
      rw [Function.update_of_ne hj, bytesOf_append_of_ne hj]
      exact h.follows j
  noStall _ := by
    refine .inr ⟨i, ?_⟩
    show (Function.update s.writers i _ i).phase = .setInt
    rw [Function.update_self]

/-- The head of the loop reads a byte of the data, and finds it in the buffer or waits. -/
theorem SerialTx.Sound.writeLoop (h : s.Sound data) {i : ι}
    (hloop : (s.writers i).phase = .loop) :
    ∃ t, s.writeLoop data i = some t ∧ t.Sound data := by
  have hi := h.follows i
  have hsize := hi.size_eq (.inl hloop)
  have hnoInt : (s.writers i).phase = .setInt → s.txInt = true := by simp [hloop]
  rw [SerialTx.writeLoop]
  split
  · rename_i hzero
    refine ⟨_, rfl, h.setWriter ⟨hi.sent_eq, by simp, by simp, ?_⟩ hnoInt⟩
    rintro nbytes hdone
    obtain rfl := WritePhase.done.inj hdone
    have hend : (s.writers i).ptr = (data i).length := by omega
    exact ⟨hend, hend⟩
  · have hlt : (s.writers i).ptr < (data i).length := by omega
    have hb := List.getElem?_eq_getElem hlt
    rw [hb, Option.bind_some]
    rcases h.inv.bounded.lt_or_eq with hroom | hfull
    · obtain ⟨rb, hpush, hinv, -, -, hitems⟩ :=
        push_spec h.inv ⟨[(data i)[(s.writers i).ptr]], rfl⟩ hroom
      rw [hpush]
      exact ⟨_, rfl, h.push hloop hb hinv hitems⟩
    · rw [push_full _ hfull.ge]
      refine ⟨_, rfl, h.setWriter ⟨hi.sent_eq, by simp, fun _ => hsize, by simp⟩ hnoInt⟩

theorem SerialTx.Sound.run (h : s.Sound data) (i : ι) :
    ∃ t, s.run data i = some t ∧ t.Sound data := by
  have hi := h.follows i
  rw [SerialTx.run]
  cases hphase : (s.writers i).phase with
  | start =>
      have hsent : bytesOf i s.pushed = [] := by
        rw [hi.sent_eq, hi.start_eq hphase, List.take_zero]
      refine ⟨_, rfl, h.setWriter ?_ (by simp [hphase])⟩
      rw [hsent]
      split
      · rename_i hzero
        exact ⟨rfl, by simp, by simp, by simp [hzero]⟩
      · exact ⟨rfl, by simp, by simp, by simp⟩
  | loop => exact h.writeLoop hphase
  | setInt =>
      have henabled : SerialTx.Sound data { s with txInt := true } :=
        ⟨h.inv, h.fifo, h.follows, fun _ => .inl rfl⟩
      have hsize := hi.size_eq (by simp [hphase])
      exact ⟨_, rfl, henabled.setWriter ⟨hi.sent_eq, by simp, fun _ => hsize, by simp⟩ fun _ => rfl⟩
  | delay =>
      have hsize := hi.size_eq (by simp [hphase])
      exact ⟨_, rfl, h.setWriter ⟨hi.sent_eq, by simp, fun _ => hsize, by simp⟩ (by simp [hphase])⟩
  | done nbytes => exact ⟨s, rfl, h⟩

/-- The interrupt puts the oldest byte on the wire. -/
theorem SerialTx.Sound.isr (h : s.Sound data) : ∃ t, s.isr = some t ∧ t.Sound data := by
  rcases Nat.eq_zero_or_pos s.txIntBuf.len with hempty | hne
  · have hitems : s.txIntBuf.items = [] := List.eq_nil_of_length_eq_zero (by simp [hempty])
    refine ⟨{ s with txInt := false }, ?_, h.inv, h.fifo, h.follows, fun hne => absurd hitems hne⟩
    rw [SerialTx.isr, pop_empty true hempty]
    rfl
  · obtain ⟨rb, hpop, hinv, -, -, hitems⟩ := pop_spec h.inv true hne
    have hfifo := h.fifo
    rw [hitems] at hfifo
    -- the item is one of the bytes that were pushed
    obtain ⟨p, -, hp⟩ : ∃ p ∈ s.pushed, [p.2] = s.txIntBuf.cells s.txIntBuf.tail := by
      have hmem : s.txIntBuf.cells s.txIntBuf.tail ∈ s.pushed.map fun p => [p.2] := by
        rw [← hfifo]
        exact List.mem_append_right _ List.mem_cons_self
      exact List.mem_map.mp hmem
    rw [← hp] at hfifo
    refine ⟨{ s with txIntBuf := rb, wire := s.wire ++ [p.2] }, ?_, hinv, ?_, h.follows, ?_⟩
    · rw [SerialTx.isr, hpop, Option.bind_some, if_pos rfl, if_pos rfl, ← hp]
      rfl
    · rw [← hfifo]
      simp
    · intro _
      exact h.noStall (by simp [hitems])

/-- For any calls at the same time, and the interrupt at any time: what has been pushed is on the
wire or in the buffer, in order; of each call it is as much as the call has come through,
and all of the data when it returns; and unless a call is in front of `RT_DEVICE_CTRL_SET_INT`,
the interrupt is enabled while the buffer is not empty. -/
theorem serial_write_lossless (data : ι → List UInt8) (block : Item (serialRbBufsz * 1)) :
    ∃ rb, ringbufferInit block.1 = some rb ∧ ∀ (txInt : Bool) (as : List (SerialAction ι)),
      ∃ s, (serialTx data).exec (.boot rb txInt) as = some s ∧ s.Lossless data := by
  obtain ⟨rb, hinit, hinv, hitems⟩ : ∃ rb : Ringbuffer 1 serialRbBufsz,
      ringbufferInit block.1 = some rb ∧ rb.Abs .empty := init_spec block.2
  refine ⟨rb, hinit, fun txInt as => ?_⟩
  have hboot : SerialTx.Sound data (.boot rb txInt) := by
    refine ⟨hinv, hitems, fun i => ?_, fun hne => absurd hitems hne⟩
    exact ⟨rfl, fun _ => rfl, by simp [SerialTx.boot], by simp [SerialTx.boot]⟩
  obtain ⟨s, hexec, hs⟩ := Machine.exec_total (M := serialTx data) (I := SerialTx.Sound data)
    (fun s a h => by
      cases a with
      | run i => exact h.run i
      | isr => exact h.isr) hboot as
  exact ⟨s, hexec, hs.lossless⟩

end

end TdPrinter
