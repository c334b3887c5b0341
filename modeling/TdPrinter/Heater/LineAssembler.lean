import TdPrinter.Foundation.Stream
import TdPrinter.GCode.LineBuffer
import TdPrinter.Heater.Frames

/-!
# Lines from the sub-board

`app_sboard` reads the sub-board byte by byte.  Line feeds and null bytes are dropped; every
other byte is stored in `line` at once, and only then it is decided what becomes of the index:
at 15 it stays, so that the bytes of a line that is too long overwrite each other in the last
place, which is where the terminator goes.

`sboard_lines` says what comes out of this for any stream, with the polls that find nothing
to read anywhere in between.
-/

namespace TdPrinter

/-- The size of `line`. -/
def sboardLineSize : ℕ := 16

/-- The driver with the variables of `app_sboard` and `processLine`, and the contents of
`line` at each call of `processLine`. -/
structure SboardThread (R : Type*) where
  driver : FrameDriver R
  csum : ℤ
  pressure : ℤ
  line : ℕ → UInt8
  lineLp : ℕ
  idleSend : ℕ
  calls : List (List UInt8)

section

variable {R : Type*} [Field R] [LinearOrder R] [FloorRing R]

omit [LinearOrder R] [FloorRing R] in
def SboardThread.boot : SboardThread R := ⟨.boot, 0, 0, fun _ => 0, 0, 0, []⟩

omit [Field R] [LinearOrder R] [FloorRing R] in
/-- `line[i]=c`. -/
def SboardThread.store (s : SboardThread R) (i : ℕ) (c : UInt8) : Option (SboardThread R) :=
  if i < sboardLineSize then some { s with line := Function.update s.line i c } else none

omit [Field R] [LinearOrder R] [FloorRing R] in
/-- The contents of `line`. -/
def SboardThread.buffer (s : SboardThread R) : List UInt8 := (List.range sboardLineSize).map s.line

/-- `processLine(line)`. -/
def SboardThread.processLine (s : SboardThread R) : SboardThread R :=
  let line := s.buffer
  { s with
    driver := sboardProcessLine s.driver line
    -- 't'
    csum := if line.head? = some 116 then s.csum + 1 else s.csum
    -- 'p'
    pressure := if line.head? = some 112 then atoi line.tail else s.pressure
    calls := s.calls ++ [line] }

/-- The byte `c` has been read. -/
def SboardThread.byte (s : SboardThread R) (c : UInt8) : Option (SboardThread R) :=
  if c = 10 ∨ c = 0 then some s
  else
    (s.store s.lineLp c).bind fun s =>
      if c = 13 then
        (s.store s.lineLp 0).map fun s => ({ s with lineLp := 0 } : SboardThread R).processLine
      else if s.lineLp < 15 then some { s with lineLp := s.lineLp + 1 }
      else some s

def SboardThread.idle (s : SboardThread R) : SboardThread R :=
  if s.idleSend > 40 then { s with idleSend := 0, driver := sendData s.driver }
  else { s with idleSend := s.idleSend + 1 }

variable (R) in
/-- One turn of the loop of `app_sboard`, for what `rt_device_read` returns. -/
def sboardMachine : Machine (SboardThread R) (Option UInt8) where
  step s
    | some c => s.byte c
    | none => some s.idle

/-! ## Lines -/

/-- What is kept of the bytes of a line. -/
def keptBytes (l : List UInt8) : List UInt8 := l.filter fun c => c ≠ 10 ∧ c ≠ 0

/-- The string that `processLine` is to get for the bytes of a line. -/
def sboardLine (l : List UInt8) : List UInt8 := (keptBytes l).take 15

/-- The bytes that a sequence of polls has received. -/
def received (polls : List (Option UInt8)) : List UInt8 := polls.filterMap id

/-- The bytes `l` have come in since the last carriage return. -/
structure SboardThread.Holds (s : SboardThread R) (l : List UInt8) : Prop where
  lineLp_eq : s.lineLp = (sboardLine l).length
  stored_eq : (List.range s.lineLp).map s.line = sboardLine l

/-- The lines that have been completed were passed on, and the bytes of the next one are held. -/
structure SboardThread.Reads (s : SboardThread R) (bytes : List UInt8) : Prop where
  calls : s.calls.map cString = (bytes.splitOn 13).dropLast.map sboardLine
  terminated : ∀ b ∈ s.calls, 0 ∈ b
  count : s.calls.length = bytes.count 13
  holds : s.Holds ((bytes.splitOn 13).getLast (List.splitOn_ne_nil _ _))

theorem length_sboardLine_le (l : List UInt8) : (sboardLine l).length ≤ 15 := by
  rw [sboardLine, List.length_take]
  exact Nat.min_le_left _ _

theorem zero_notMem_sboardLine (l : List UInt8) : ∀ c ∈ sboardLine l, c ≠ 0 := by
  intro c hc
  have hkept := List.mem_of_mem_take hc
  simp only [keptBytes, List.mem_filter, decide_eq_true_eq] at hkept
  exact hkept.2.2

theorem sboardLine_concat_dropped {l : List UInt8} {c : UInt8} (hc : c = 10 ∨ c = 0) :
    sboardLine (l ++ [c]) = sboardLine l := by
  have hnone : ([c].filter fun c => c ≠ 10 ∧ c ≠ 0) = [] := by
    rcases hc with rfl | rfl <;> rfl
  rw [sboardLine, keptBytes, List.filter_append, hnone, List.append_nil, ← keptBytes,
    ← sboardLine]

/-- Any other byte is appended where there is room. -/
theorem sboardLine_concat {l : List UInt8} {c : UInt8} (hc : ¬ (c = 10 ∨ c = 0)) :
    sboardLine (l ++ [c]) =
      if (sboardLine l).length < 15 then sboardLine l ++ [c] else sboardLine l := by
  have hkept : keptBytes (l ++ [c]) = keptBytes l ++ [c] := by
    simp only [keptBytes, List.filter_append]
    congr 1
    simpa using hc
  rw [sboardLine, hkept, List.take_append, sboardLine, List.length_take]
  split
  · rw [List.take_of_length_le (l := [c]) (by simp; omega)]
  · have hfull : 15 - (keptBytes l).length = 0 := by omega
    rw [hfull, List.take_zero, List.append_nil]

/-! ## The buffer -/

omit [Field R] [LinearOrder R] [FloorRing R] in
theorem SboardThread.Holds.lineLp_le {s : SboardThread R} {l : List UInt8} (h : s.Holds l) :
    s.lineLp ≤ 15 := by
  rw [h.lineLp_eq]
  exact length_sboardLine_le l

omit [Field R] [LinearOrder R] [FloorRing R] in
/-- There is always room for a store at the index. -/
theorem SboardThread.Holds.store {s : SboardThread R} {l : List UInt8} (h : s.Holds l)
    (c : UInt8) :
    s.store s.lineLp c = some { s with line := Function.update s.line s.lineLp c } :=
  if_pos (Nat.lt_succ_of_le h.lineLp_le)

theorem SboardThread.Holds.byte_kept {s : SboardThread R} {l : List UInt8} (h : s.Holds l)
    {c : UInt8} (hc : ¬ (c = 10 ∨ c = 0)) (hcr : c ≠ 13) :
    ∃ t, s.byte c = some t ∧ t.Holds (l ++ [c]) ∧ t.calls = s.calls := by
  have hlen := h.lineLp_eq
  rw [SboardThread.byte, if_neg hc, h.store, Option.bind_some, if_neg hcr]
  dsimp only
  split
  · rename_i hroom
    have hline : sboardLine (l ++ [c]) = sboardLine l ++ [c] := by
      rw [sboardLine_concat hc, if_pos (hlen ▸ hroom)]
    refine ⟨_, rfl, ⟨?_, ?_⟩, rfl⟩
    · rw [hline, List.length_append, ← hlen, List.length_singleton]
    · rw [hline, ← h.stored_eq]
      exact map_range_store s.line s.lineLp c
  · rename_i hfull
    have hline : sboardLine (l ++ [c]) = sboardLine l := by
      rw [sboardLine_concat hc, if_neg (hlen ▸ hfull)]
    refine ⟨_, rfl, ⟨?_, ?_⟩, rfl⟩
    · rw [hline]
      exact hlen
    · rw [hline, ← h.stored_eq]
      exact map_range_update s.line le_rfl c

/-- A byte other than a carriage return belongs to the line. -/
theorem SboardThread.Holds.byte {s : SboardThread R} {l : List UInt8} (h : s.Holds l) {c : UInt8}
    (hcr : c ≠ 13) : ∃ t, s.byte c = some t ∧ t.Holds (l ++ [c]) ∧ t.calls = s.calls := by
  by_cases hc : c = 10 ∨ c = 0
  · refine ⟨s, if_pos hc, ⟨?_, ?_⟩, rfl⟩
    · rw [sboardLine_concat_dropped hc]
      exact h.lineLp_eq
    · rw [sboardLine_concat_dropped hc]
      exact h.stored_eq
  · exact h.byte_kept hc hcr

omit [Field R] [LinearOrder R] [FloorRing R] in
/-- With the terminator behind it the line is a string. -/
theorem SboardThread.Holds.buffer_eq {s : SboardThread R} {l : List UInt8} (h : s.Holds l) :
    ∃ rest, (List.range sboardLineSize).map (Function.update s.line s.lineLp 0) =
      sboardLine l ++ 0 :: rest := by
  obtain ⟨rest, hrest⟩ := map_range_split (Function.update s.line s.lineLp 0)
    (show s.lineLp < sboardLineSize from Nat.lt_succ_of_le h.lineLp_le)
  rw [map_range_update s.line le_rfl, h.stored_eq, Function.update_self] at hrest
  exact ⟨rest, hrest⟩

theorem SboardThread.Holds.byte_return {s : SboardThread R} {l : List UInt8} (h : s.Holds l) :
    ∃ t b, s.byte 13 = some t ∧ t.Holds [] ∧ t.calls = s.calls ++ [b] ∧
      cString b = sboardLine l ∧ 0 ∈ b := by
  let v : SboardThread R :=
    { s with line := Function.update s.line s.lineLp 0, lineLp := 0 }
  have hstore : ({ s with line := Function.update s.line s.lineLp 13 } : SboardThread R).store
      s.lineLp 0 = some { s with line := Function.update s.line s.lineLp 0 } := by
    rw [SboardThread.store, if_pos (show s.lineLp < sboardLineSize from
      Nat.lt_succ_of_le h.lineLp_le), Function.update_idem]
  have hbyte : s.byte 13 = some v.processLine := by
    rw [SboardThread.byte, if_neg (by decide), h.store, Option.bind_some, if_pos rfl, hstore,
      Option.map_some]
  obtain ⟨rest, hbuffer⟩ := h.buffer_eq
  refine ⟨v.processLine, v.buffer, hbyte, ⟨rfl, rfl⟩, rfl, ?_, ?_⟩
  · have hpos : ∀ c ∈ sboardLine l, (c != 0) = true := fun c hc => by
      simpa using zero_notMem_sboardLine l c hc
    rw [SboardThread.buffer, hbuffer, cString, List.takeWhile_append_of_pos hpos,
      List.takeWhile_cons_of_neg (by decide), List.append_nil]
  · rw [SboardThread.buffer, hbuffer]
    exact List.mem_append_right _ List.mem_cons_self

/-! ## The stream -/

theorem SboardThread.Reads.byte_return {s : SboardThread R} {bytes : List UInt8}
    (h : s.Reads bytes) : ∃ t, s.byte 13 = some t ∧ t.Reads (bytes ++ [13]) := by
  obtain ⟨t, b, hbyte, hholds, hcalls, hstring, hzero⟩ := h.holds.byte_return
  have hsplit : (bytes ++ [13]).splitOn 13 = bytes.splitOn 13 ++ [[]] :=
    List.splitOn_append_cons_self bytes []
  refine ⟨t, hbyte, ?_, ?_, ?_, ?_⟩
  · have hlines := List.dropLast_append_getLast (List.splitOn_ne_nil (13 : UInt8) bytes)
    rw [hcalls, List.map_append, h.calls, List.map_singleton, hstring, hsplit,
      List.dropLast_concat]
    conv_rhs => rw [← hlines]
    rw [List.map_append, List.map_singleton]
  · intro b' hb'
    rw [hcalls] at hb'
    rcases List.mem_append.mp hb' with hold | hnew
    · exact h.terminated b' hold
    · rwa [List.mem_singleton.mp hnew]
  · rw [hcalls, List.length_append, h.count, List.count_append]
    rfl
  · simpa [hsplit] using hholds

theorem SboardThread.Reads.byte {s : SboardThread R} {bytes : List UInt8} (h : s.Reads bytes)
    (c : UInt8) : ∃ t, s.byte c = some t ∧ t.Reads (bytes ++ [c]) := by
  by_cases hcr : c = 13
  · subst hcr
    exact h.byte_return
  · obtain ⟨t, hbyte, hholds, hcalls⟩ := h.holds.byte hcr
    have hsplit := splitOn_concat_of_ne hcr bytes
    refine ⟨t, hbyte, ?_, ?_, ?_, ?_⟩
    · rw [hcalls, h.calls, hsplit, List.dropLast_concat]
    · rw [hcalls]
      exact h.terminated
    · rw [hcalls, h.count, List.count_append, List.count_singleton,
        if_neg (by simpa using hcr), Nat.add_zero]
    · simpa [hsplit] using hholds

/-- A poll that finds nothing leaves the line alone. -/
theorem SboardThread.Reads.idle {s : SboardThread R} {bytes : List UInt8} (h : s.Reads bytes) :
    s.idle.Reads bytes := by
  have hline := h.holds.lineLp_eq
  have hstored := h.holds.stored_eq
  rw [SboardThread.idle]
  split
  · exact ⟨h.calls, h.terminated, h.count, ⟨hline, hstored⟩⟩
  · exact ⟨h.calls, h.terminated, h.count, ⟨hline, hstored⟩⟩

theorem SboardThread.Reads.step {s : SboardThread R} {polls : List (Option UInt8)}
    (h : s.Reads (received polls)) (poll : Option UInt8) :
    ∃ t, (sboardMachine R).step s poll = some t ∧ t.Reads (received (polls ++ [poll])) := by
  rw [received, List.filterMap_append, ← received]
  cases poll with
  | none =>
      refine ⟨s.idle, rfl, ?_⟩
      rw [show [none].filterMap id = ([] : List UInt8) from rfl, List.append_nil]
      exact h.idle
  | some c => exact h.byte c

/-- Whatever is received, in whatever portions: `processLine` has been called once for each
carriage return, with the bytes since the one before, without line feeds and null bytes and cut
after 15, and no store has missed `line`. -/
theorem sboard_lines (polls : List (Option UInt8)) :
    ∃ s : SboardThread R, (sboardMachine R).exec .boot polls = some s ∧
      s.calls.map cString = ((received polls).splitOn 13).dropLast.map sboardLine ∧
      s.calls.length = (received polls).count 13 ∧ ∀ b ∈ s.calls, 0 ∈ b := by
  have hboot : (SboardThread.boot : SboardThread R).Reads (received []) :=
    ⟨rfl, by simp [SboardThread.boot], rfl, ⟨rfl, rfl⟩⟩
  obtain ⟨s, hexec, hreads⟩ := Machine.exec_history (M := sboardMachine R)
    (J := fun polls s => s.Reads (received polls)) (fun polls s poll h => h.step poll) hboot polls
  exact ⟨s, hexec, hreads.calls, hreads.count, hreads.terminated⟩

end

end TdPrinter
