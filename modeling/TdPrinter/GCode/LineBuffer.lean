import Mathlib.Data.List.Forall2
import Mathlib.Data.List.TakeWhile
import TdPrinter.Foundation.Memory
import TdPrinter.GCode.GetLine

/-!
# Where getLine writes

`getLine` stores a byte before it looks whether there is room, and the terminator behind
the line without looking.  Here `lineBuffer` is memory, `mem i` being what is at
`lineBuffer[i]`, and every store is recorded, also those beyond the buffer.

What the lines are does not depend on that: `reader_readBytes` says that the memory holds
what `Reader` keeps in its lists.  That all stores hit the buffer, and that each line
ends inside of it, takes lines of at most 126 characters (`getLine_iff`).
-/

namespace TdPrinter

/-- `lineBuffer` with what lies behind it, the stores so far, and the contents of the buffer
each time `getLine` has returned 1. -/
structure LineReader where
  mem : ℕ → UInt8
  lineLength : ℕ
  writes : List ℕ
  lines : List (List UInt8)

/-- `g->lineBuffer[i]=c`. -/
def LineReader.store (r : LineReader) (i : ℕ) (c : UInt8) : LineReader :=
  { r with mem := Function.update r.mem i c, writes := r.writes ++ [i] }

def LineReader.buffer (r : LineReader) : List UInt8 := (List.range gcodeBufferSize).map r.mem

/-- A byte is stored, and counted if it was stored in the buffer. -/
def LineReader.put (r : LineReader) (c : UInt8) : LineReader :=
  { r.store r.lineLength c with
    lineLength := if r.lineLength < gcodeBufferSize then r.lineLength + 1 else r.lineLength }

/-- `rt_device_read` has returned the byte `c`; a call of `getLine` that has ended is
followed by the next one. -/
def LineReader.byte (r : LineReader) (c : UInt8) : LineReader :=
  let r := r.put c
  if isLineEnd c then
    if r.lineLength < 3 then { r with lineLength := 0 }
    else
      let r := r.store r.lineLength 0
      { r with lines := r.lines ++ [r.buffer], lineLength := 0 }
  else r

/-- `getLine` reads the first `n` bytes of a stream. -/
def readBytes (mem : ℕ → UInt8) (stream : ℕ → UInt8) : ℕ → LineReader
  | 0 => ⟨mem, 0, [], []⟩
  | n + 1 => (readBytes mem stream n).byte (stream n)

/-! ## The lines -/

def cString (buffer : List UInt8) : List UInt8 := buffer.takeWhile (· != 0)

/-- What `Reader` keeps. -/
def LineReader.reader (r : LineReader) : Reader where
  lines := r.lines.map fun b => lineText (cString b)
  lineBuffer := (List.range r.lineLength).map r.mem

/-- The text of a string that ends with nothing but line ends. -/
theorem lineText_cString {text s : List UInt8} (htext : ∀ b ∈ text, isLineEnd b = false)
    (hs : ∀ b ∈ cString s, isLineEnd b = true) : lineText (cString (text ++ s)) = text := by
  have hsplit : cString (text ++ s) = text ++ cString s := by
    refine List.takeWhile_append_of_pos fun b hb => ?_
    have hne : b ≠ 0 := by
      rintro rfl
      simpa [isLineEnd] using htext 0 hb
    simpa using hne
  have hnone : (cString s).filter (fun c => !isLineEnd c) = [] := by
    rw [List.filter_eq_nil_iff]
    intro b hb
    simp [hs b hb]
  rw [hsplit, lineText, List.filter_append, hnone, List.append_nil, ← lineText,
    lineText_of_forall htext]

/-- Between two bytes only characters are stored. -/
structure LineReader.Sound (r : LineReader) : Prop where
  length_le : r.lineLength ≤ gcodeBufferSize
  text : ∀ b ∈ r.reader.lineBuffer, isLineEnd b = false

/-- A line that has been stored and ended by `c` is read as its text. -/
theorem lineText_buffer {r : LineReader} {text : List UInt8} {c : UInt8}
    (htext : ∀ b ∈ text, isLineEnd b = false) (hc : isLineEnd c = true)
    (hlen : r.lineLength ≤ gcodeBufferSize)
    (hstored : (List.range r.lineLength).map r.mem = text ++ [c] ∨
      r.lineLength = gcodeBufferSize ∧ (List.range r.lineLength).map r.mem = text) :
    lineText (cString (r.store r.lineLength 0).buffer) = text := by
  rcases hlen.lt_or_eq with hroom | hfull
  · -- the terminator is in the buffer
    obtain ⟨s, hs⟩ := map_range_split (Function.update r.mem r.lineLength 0) hroom
    rw [map_range_update r.mem le_rfl, Function.update_self] at hs
    rcases hstored with hstored | ⟨hfull, -⟩
    · have hbuffer : (r.store r.lineLength 0).buffer = text ++ c :: 0 :: s := by
        show (List.range gcodeBufferSize).map (Function.update r.mem r.lineLength 0) = _
        rw [hs, hstored]
        simp
      rw [hbuffer]
      refine lineText_cString htext fun b hb => ?_
      by_cases hzero : c = 0
      · simp [cString, hzero] at hb
      · have hb : b = c := by simpa [cString, hzero] using hb
        rw [hb, hc]
    · omega
  · -- it is not, and the line ends where the buffer does
    have hbuffer : (r.store r.lineLength 0).buffer = (List.range r.lineLength).map r.mem := by
      show (List.range gcodeBufferSize).map (Function.update r.mem r.lineLength 0) = _
      rw [hfull, map_range_update r.mem le_rfl]
    rw [hbuffer]
    rcases hstored with hstored | ⟨-, hstored⟩
    · rw [hstored]
      refine lineText_cString htext fun b hb => ?_
      by_cases hzero : c = 0
      · simp [cString, hzero] at hb
      · have hb : b = c := by simpa [cString, hzero] using hb
        rw [hb, hc]
    · rw [hstored]
      simpa using lineText_cString (s := []) htext (by simp [cString])

theorem LineReader.reader_put (r : LineReader) (c : UInt8) :
    (r.put c).reader.lineBuffer =
      if r.reader.lineBuffer.length < gcodeBufferSize then r.reader.lineBuffer ++ [c]
      else r.reader.lineBuffer := by
  have hlength : r.reader.lineBuffer.length = r.lineLength := by simp [LineReader.reader]
  rw [hlength]
  simp only [LineReader.reader, LineReader.put, LineReader.store]
  split
  · exact map_range_store r.mem r.lineLength c
  · exact map_range_update r.mem le_rfl c

theorem LineReader.Sound.put_length_le {r : LineReader} (h : r.Sound) (c : UInt8) :
    (r.put c).lineLength ≤ gcodeBufferSize := by
  have hle := h.length_le
  simp only [LineReader.put]
  split <;> omega

/-- Nothing is lost of a line when its end and the terminator are stored. -/
theorem LineReader.Sound.lineText_end {r : LineReader} (h : r.Sound) {c : UInt8}
    (hc : isLineEnd c = true) :
    lineText (cString ((r.put c).store (r.put c).lineLength 0).buffer) =
      lineText (r.put c).reader.lineBuffer := by
  have hput := r.reader_put c
  have hlength : (r.put c).reader.lineBuffer.length = (r.put c).lineLength := by
    simp [LineReader.reader]
  have hlen := h.put_length_le c
  rw [hput]
  split at hput
  · rw [if_pos ‹_›, lineText_append_end hc h.text]
    exact lineText_buffer h.text hc hlen (.inl hput)
  · rw [if_neg ‹_›, lineText_of_forall h.text]
    refine lineText_buffer h.text hc hlen (.inr ⟨?_, hput⟩)
    have hkept : r.reader.lineBuffer.length = r.lineLength := by simp [LineReader.reader]
    have hle := h.length_le
    rw [← hlength, hput]
    omega

/-- The memory holds what `Reader` keeps in its lists. -/
theorem LineReader.Sound.byte {r : LineReader} (h : r.Sound) (c : UInt8) :
    (r.byte c).reader = r.reader.byte c ∧ (r.byte c).Sound := by
  have hput := r.reader_put c
  have hlength : (r.put c).reader.lineBuffer.length = (r.put c).lineLength := by
    simp [LineReader.reader]
  cases hc : isLineEnd c with
  | false =>
      have hnext : r.byte c = r.put c := by simp [LineReader.byte, hc]
      rw [hnext]
      refine ⟨?_, h.put_length_le c, ?_⟩
      · simp only [Reader.byte, getLineByte, hc, Bool.false_eq_true, if_false]
        rw [← hput]
        simp [LineReader.reader, LineReader.put, LineReader.store]
      · intro b hb
        rw [hput] at hb
        split at hb
        · rcases List.mem_append.mp hb with hold | hnew
          · exact h.text b hold
          · rwa [List.mem_singleton.mp hnew]
        · exact h.text b hb
  | true =>
      by_cases hshort : (r.put c).lineLength < 3
      · have hnext : r.byte c = { r.put c with lineLength := 0 } := by
          simp [LineReader.byte, hc, hshort]
        rw [hnext]
        refine ⟨?_, Nat.zero_le _, by simp [LineReader.reader]⟩
        simp only [Reader.byte, getLineByte, hc, if_true]
        rw [← hput, hlength, if_pos hshort]
        simp [LineReader.reader, LineReader.put, LineReader.store]
      · have hnext : r.byte c = { (r.put c).store (r.put c).lineLength 0 with
            lines := (r.put c).lines ++ [((r.put c).store (r.put c).lineLength 0).buffer]
            lineLength := 0 } := by
          simp [LineReader.byte, hc, hshort, LineReader.store]
        rw [hnext]
        refine ⟨?_, Nat.zero_le _, by simp [LineReader.reader]⟩
        simp only [Reader.byte, getLineByte, hc, if_true]
        rw [← hput, hlength, if_neg hshort]
        simp only [← h.lineText_end hc]
        simp [LineReader.reader, LineReader.put, LineReader.store]

/-- What `getLine` has read are the lines of the text. -/
theorem reader_readBytes (mem : ℕ → UInt8) (stream : ℕ → UInt8) (n : ℕ) :
    (readBytes mem stream n).reader =
        ((List.range n).map stream).foldl Reader.byte ⟨[], []⟩ ∧
      (readBytes mem stream n).Sound := by
  induction n with
  | zero => exact ⟨rfl, Nat.zero_le _, by simp [readBytes, LineReader.reader]⟩
  | succ n ih =>
      obtain ⟨hreader, hsound⟩ := ih
      rw [List.range_succ, List.map_append, List.map_singleton, List.foldl_concat, ← hreader]
      exact hsound.byte (stream n)

/-! ## The stores -/

/-- `buffer` ends inside of itself and holds the line `segment`, or the beginning of it if there
is no room for its end and the terminator. -/
def IsLineOf (buffer segment : List UInt8) : Prop :=
  0 ∈ buffer ∧
    if segment.length + 2 ≤ gcodeBufferSize then lineText (cString buffer) = segment
    else lineText (cString buffer) <+: segment

/-- All stores were in `lineBuffer`, and the lines returned are those of `text` with at least two
characters, in order. -/
def LineReader.KeepsLines (r : LineReader) (text : List UInt8) : Prop :=
  (∀ i ∈ r.writes, i < gcodeBufferSize) ∧
    List.Forall₂ IsLineOf r.lines ((textLines text).filter fun l => 2 ≤ l.length)

/-- The line read so far, and everything before it, is in the buffer. -/
structure LineReader.Inside (r : LineReader) (stream : ℕ → UInt8) (n : ℕ) : Prop where
  lineLength_le : r.lineLength ≤ n
  text : ∀ i, n - r.lineLength ≤ i → i < n → isLineEnd (stream i) = false
  writes : ∀ i ∈ r.writes, i < gcodeBufferSize
  lines : ∀ b ∈ r.lines, 0 ∈ b

/-- A terminator inside of the buffer ends the line there. -/
theorem LineReader.zero_mem_buffer (r : LineReader) {i : ℕ} (hi : i < gcodeBufferSize) :
    0 ∈ (r.store i 0).buffer := by
  refine List.mem_map.mpr ⟨i, List.mem_range.mpr hi, ?_⟩
  exact Function.update_self ..

/-- A byte that leaves room for the terminator is stored inside. -/
theorem LineReader.Inside.byte {r : LineReader} {stream : ℕ → UInt8} {n : ℕ}
    (h : r.Inside stream n) (hroom : r.lineLength + 1 < gcodeBufferSize) :
    (r.byte (stream n)).Inside stream (n + 1) := by
  have hlen := h.lineLength_le
  have hput : (r.put (stream n)).lineLength = r.lineLength + 1 :=
    if_pos (Nat.lt_of_succ_lt hroom)
  have hwrites : ∀ i ∈ (r.put (stream n)).writes, i < gcodeBufferSize := by
    intro i hi
    rcases List.mem_append.mp hi with hold | hnew
    · exact h.writes i hold
    · rw [List.mem_singleton.mp hnew]
      exact Nat.lt_of_succ_lt hroom
  cases hc : isLineEnd (stream n) with
  | false =>
      have hnext : r.byte (stream n) = r.put (stream n) := by simp [LineReader.byte, hc]
      rw [hnext]
      refine ⟨by omega, ?_, hwrites, h.lines⟩
      intro i hfrom hto
      rcases Nat.lt_succ_iff_lt_or_eq.mp hto with hlt | rfl
      · exact h.text i (by omega) hlt
      · exact hc
  | true =>
      by_cases hshort : (r.put (stream n)).lineLength < 3
      · have hnext : r.byte (stream n) = { r.put (stream n) with lineLength := 0 } := by
          simp [LineReader.byte, hc, hshort]
        rw [hnext]
        exact ⟨Nat.zero_le _, fun i hfrom hto => by simp only at hfrom; omega, hwrites, h.lines⟩
      · have hnext : r.byte (stream n) = { (r.put (stream n)).store (r.lineLength + 1) 0 with
            lines := r.lines ++ [((r.put (stream n)).store (r.lineLength + 1) 0).buffer]
            lineLength := 0 } := by
          rw [hput] at hshort
          simp only [LineReader.byte, hc, if_true, hput, if_neg hshort]
          rfl
        rw [hnext]
        refine ⟨Nat.zero_le _, fun i hfrom hto => by simp only at hfrom; omega, ?_, ?_⟩
        · intro i hi
          rcases List.mem_append.mp hi with hold | hnew
          · exact hwrites i hold
          · rwa [List.mem_singleton.mp hnew]
        · intro b hb
          rcases List.mem_append.mp hb with hold | hnew
          · exact h.lines b hold
          · rw [List.mem_singleton.mp hnew]
            exact (r.put (stream n)).zero_mem_buffer hroom

/-- If a line end is never far, all lines are read inside of the buffer. -/
theorem inside_readBytes (mem : ℕ → UInt8) {stream : ℕ → UInt8}
    (hstream : ∀ n, ∃ k, k + 1 < gcodeBufferSize ∧ isLineEnd (stream (n + k)) = true) (n : ℕ) :
    (readBytes mem stream n).Inside stream n := by
  induction n with
  | zero => exact ⟨Nat.zero_le _, fun i _ h => by omega, by simp [readBytes], by simp [readBytes]⟩
  | succ n ih =>
      obtain ⟨k, hk, hend⟩ := hstream (n - (readBytes mem stream n).lineLength)
      have hlen := ih.lineLength_le
      refine ih.byte (Nat.lt_of_le_of_lt (Nat.succ_le_succ ?_) hk)
      by_contra! hlt
      have hcharacter := ih.text _ (Nat.le_add_right _ k) (by omega)
      simp [hend] at hcharacter

/-- The stores made before a byte remain recorded. -/
theorem LineReader.writes_subset_byte (r : LineReader) (c : UInt8) :
    r.writes ++ [r.lineLength] ⊆ (r.byte c).writes := by
  simp only [LineReader.byte]
  split
  · split
    · exact List.Subset.refl _
    · exact List.subset_append_left _ _
  · exact List.Subset.refl _

/-- After `k` characters, `k` bytes are in the buffer, or it is full. -/
theorem lineLength_readBytes (mem : ℕ → UInt8) {stream : ℕ → UInt8} (n k : ℕ)
    (htext : ∀ i < k, isLineEnd (stream (n + i)) = false) :
    min gcodeBufferSize k ≤ (readBytes mem stream (n + k)).lineLength := by
  induction k with
  | zero => simp
  | succ k ih =>
      have hlen := ih fun i hi => htext i (by omega)
      have hnext : (readBytes mem stream (n + (k + 1))).lineLength =
          ((readBytes mem stream (n + k)).put (stream (n + k))).lineLength := by
        rw [← Nat.add_assoc, readBytes, LineReader.byte, htext k (by omega)]
        rfl
      rw [hnext, LineReader.put]
      simp only
      split <;> omega

/-- With one place left in the buffer, one of the next two bytes, or the terminator, is stored
behind it. -/
theorem LineReader.full_mem_writes {r : LineReader} (hle : r.lineLength ≤ gcodeBufferSize)
    (hlen : gcodeBufferSize ≤ r.lineLength + 1) (c d : UInt8) :
    gcodeBufferSize ∈ ((r.byte c).byte d).writes := by
  have hkeep := (r.byte c).writes_subset_byte d
  rcases hle.lt_or_eq with hlast | hfull
  · have hput : (r.put c).lineLength = gcodeBufferSize := by
      simp only [LineReader.put, if_pos hlast]
      omega
    cases hc : isLineEnd c with
    | false =>
        have hnext : r.byte c = r.put c := by simp [LineReader.byte, hc]
        apply hkeep
        simp [hnext, hput]
    | true =>
        have hlong : ¬gcodeBufferSize < 3 := by decide
        have hterminator : gcodeBufferSize ∈ (r.byte c).writes := by
          simp [LineReader.byte, hc, hput, hlong, LineReader.store]
        exact hkeep (List.mem_append_left _ hterminator)
  · have hstore : gcodeBufferSize ∈ (r.byte c).writes := by
      apply r.writes_subset_byte c
      simp [hfull]
    exact hkeep (List.mem_append_left _ hstore)

/-- `getLine` stores nothing outside of `lineBuffer`, and returns all lines of at least two
characters, terminated inside of it, exactly if no line has more than 126 characters. -/
theorem getLine_iff (mem : ℕ → UInt8) (stream : ℕ → UInt8) :
    (∀ n, (readBytes mem stream n).KeepsLines ((List.range n).map stream)) ↔
      ∀ n, ∃ k, k + 1 < gcodeBufferSize ∧ isLineEnd (stream (n + k)) = true := by
  constructor
  · intro hkeeps n
    by_contra! hlong
    have htext : ∀ i < gcodeBufferSize - 1, isLineEnd (stream (n + i)) = false :=
      fun i hi => by simpa using hlong i (by omega)
    have hlen := lineLength_readBytes mem n _ htext
    have hsound := (reader_readBytes mem stream (n + (gcodeBufferSize - 1))).2
    have hstore := LineReader.full_mem_writes hsound.length_le (by omega)
      (stream (n + (gcodeBufferSize - 1))) (stream (n + (gcodeBufferSize - 1) + 1))
    exact (Nat.lt_irrefl _ ((hkeeps (n + (gcodeBufferSize - 1) + 2)).1 _ hstore)).elim
  · intro hstream n
    have hinside := inside_readBytes mem hstream n
    refine ⟨hinside.writes, ?_⟩
    obtain ⟨last, -, -, hfold⟩ := foldl_byte ((List.range n).map stream)
    have hlines : (readBytes mem stream n).lines.map (fun b => lineText (cString b)) =
        commands (textLines ((List.range n).map stream)) := by
      rw [← (reader_readBytes mem stream n).1] at hfold
      exact congrArg Reader.lines hfold
    rw [commands, ← List.forall₂_eq_eq_eq, List.forall₂_map_left_iff,
      List.forall₂_map_right_iff] at hlines
    refine ((List.forall₂_and_left _ _).mpr ⟨hinside.lines, hlines⟩).imp ?_
    rintro b segment ⟨hzero, htext⟩
    refine ⟨hzero, ?_⟩
    split
    · rw [htext]
      exact List.take_of_length_le (by omega)
    · rw [htext]
      exact List.take_prefix _ _

/-- The terminator of a line of 127 characters is stored over the first byte of `codeLp`. -/
theorem line_127_beyond :
    ¬∀ n, (readBytes (fun _ => 0) (fun i => if i < 127 then 71 else 10) n).KeepsLines
      ((List.range n).map fun i => if i < 127 then 71 else 10) := by
  intro h
  have hstore : gcodeBufferSize ∈
      (readBytes (fun _ => 0) (fun i => if i < 127 then 71 else 10) 128).writes := by
    decide +kernel
  exact Nat.lt_irrefl _ ((h 128).1 _ hstore)

end TdPrinter
