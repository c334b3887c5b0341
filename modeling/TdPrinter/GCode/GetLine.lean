import Mathlib.Data.List.Basic
import Mathlib.Data.List.Induction

/-!
# Reading a command line

`getLine` reads its device byte by byte and stores what it gets in `lineBuffer`, until a
carriage return, a line feed or a null byte ends the line.  A line of fewer than three
bytes, its end included, is dropped: this takes care of the second byte of CR LF and of
empty lines, but also of a command of one letter.  Bytes beyond the size of `lineBuffer`
are not kept.

The pieces of a text are those between line ends, `splitOnP isLineEnd`; its lines,
`textLines`, are the pieces that have an end.
-/

namespace TdPrinter

/-- `c == '\r' || c == '\n' || c == '\0'`. -/
def isLineEnd (c : UInt8) : Bool := c == 13 || c == 10 || c == 0

/-- `GCODE_BUFFER_SIZE`. -/
def gcodeBufferSize : ℕ := 128

/-- Where `getLine` is after a byte. -/
inductive GetLine
  /-- still in the loop, with these `lineLength` bytes in `lineBuffer` -/
  | reading (lineBuffer : List UInt8)
  /-- it has returned 0 -/
  | dropped
  /-- it has returned 1, with these `lineLength` bytes in `lineBuffer` -/
  | line (lineBuffer : List UInt8)
  deriving DecidableEq

/-- One turn of the loop in which `rt_device_read` has returned the byte `c`. -/
def getLineByte (lineBuffer : List UInt8) (c : UInt8) : GetLine :=
  let stored := if lineBuffer.length < gcodeBufferSize then lineBuffer ++ [c] else lineBuffer
  if isLineEnd c then
    if stored.length < 3 then .dropped else .line stored
  else .reading stored

/-- The text of a line, without its end. -/
def lineText (lineBuffer : List UInt8) : List UInt8 :=
  lineBuffer.filter fun c => !isLineEnd c

theorem lineText_of_forall {l : List UInt8} (h : ∀ c ∈ l, isLineEnd c = false) :
    lineText l = l := by
  apply List.filter_eq_self.mpr
  intro c hc
  simp [h c hc]

theorem getLineByte_text {l : List UInt8} {c : UInt8} (hc : isLineEnd c = false)
    (hroom : l.length < gcodeBufferSize) : getLineByte l c = .reading (l ++ [c]) := by
  simp [getLineByte, hc, hroom]

/-- The end of a line makes `getLine` return: 0 for a short line. -/
theorem getLineByte_end {l : List UInt8} {c : UInt8} (hc : isLineEnd c = true)
    (hroom : l.length < gcodeBufferSize) :
    getLineByte l c = if l.length < 2 then .dropped else .line (l ++ [c]) := by
  simp only [getLineByte, hc, if_true, hroom, List.length_append, List.length_singleton]
  congr 1
  simp [Nat.succ_lt_succ_iff]

theorem lineText_append_end {l : List UInt8} {c : UInt8} (hc : isLineEnd c = true)
    (h : ∀ b ∈ l, isLineEnd b = false) : lineText (l ++ [c]) = l := by
  rw [lineText, List.filter_append, ← lineText, lineText_of_forall h]
  simp [hc]

/-! ## The lines of a text -/

/-- The lines of a text, without their ends. -/
def textLines (t : List UInt8) : List (List UInt8) := (t.splitOnP isLineEnd).dropLast

@[simp]
theorem textLines_nil : textLines [] = [] := rfl

theorem textLines_append_cons {cur rest : List UInt8} {b : UInt8}
    (h : ∀ c ∈ cur, isLineEnd c = false) (hb : isLineEnd b = true) :
    textLines (cur ++ b :: rest) = cur :: textLines rest := by
  rw [textLines, List.splitOnP_append_cons_of_forall_mem h b hb,
    List.dropLast_cons_of_ne_nil (List.splitOnP_ne_nil _ _), textLines]

theorem splitOnP_concat_end {t : List UInt8} {c : UInt8} (hc : isLineEnd c = true) :
    (t ++ [c]).splitOnP isLineEnd = t.splitOnP isLineEnd ++ [[]] :=
  List.splitOnP_append_cons t [] hc

theorem splitOnP_append_end {t : List UInt8} {b : UInt8} (hb : isLineEnd b = true) :
    (t ++ [b]).splitOnP isLineEnd = textLines (t ++ [b]) ++ [[]] := by
  rw [textLines, splitOnP_concat_end hb, List.dropLast_concat]

theorem splitOnP_concat_text (t : List UInt8) {c : UInt8} (hc : isLineEnd c = false) :
    ∃ front last, t.splitOnP isLineEnd = front ++ [last] ∧
      (t ++ [c]).splitOnP isLineEnd = front ++ [last ++ [c]] := by
  induction t with
  | nil =>
      refine ⟨[], [], rfl, ?_⟩
      simp [List.splitOnP_cons_eq_if_modifyHead, hc]
  | cons a t ih =>
      obtain ⟨front, last, hsplit, hconcat⟩ := ih
      rw [List.cons_append, List.splitOnP_cons_eq_if_modifyHead,
        List.splitOnP_cons_eq_if_modifyHead, hsplit, hconcat]
      split
      · exact ⟨[] :: front, last, rfl, rfl⟩
      · cases front with
        | nil => exact ⟨[], a :: last, rfl, rfl⟩
        | cons l front => exact ⟨(a :: l) :: front, last, rfl, rfl⟩

/-- A piece of text in front of another one belongs to its first line. -/
theorem splitOnP_append {cur rest : List UInt8} (h : ∀ c ∈ cur, isLineEnd c = false) :
    ∃ l ls, rest.splitOnP isLineEnd = l :: ls ∧
      (cur ++ rest).splitOnP isLineEnd = (cur ++ l) :: ls := by
  induction cur with
  | nil =>
      obtain ⟨l, ls, hl⟩ := List.exists_cons_of_ne_nil (List.splitOnP_ne_nil isLineEnd rest)
      exact ⟨l, ls, hl, hl⟩
  | cons c cur ih =>
      obtain ⟨l, ls, hrest, hcur⟩ := ih fun b hb => h b (List.mem_cons_of_mem _ hb)
      have hc : isLineEnd c = false := h c List.mem_cons_self
      refine ⟨l, ls, hrest, ?_⟩
      rw [List.cons_append, List.splitOnP_cons_eq_if_modifyHead, hcur, hc]
      rfl

/-! ## Reading a text -/

/-- The texts of the lines that `getLine` has returned, and its `lineBuffer`. -/
structure Reader where
  lines : List (List UInt8)
  lineBuffer : List UInt8
  deriving DecidableEq

/-- `getLine` reads a byte. -/
def Reader.byte (r : Reader) (c : UInt8) : Reader :=
  match getLineByte r.lineBuffer c with
  | .reading lineBuffer => { r with lineBuffer }
  | .dropped => { r with lineBuffer := [] }
  | .line lineBuffer => { lines := r.lines ++ [lineText lineBuffer], lineBuffer := [] }

/-- The commands in pieces of text: pieces of at least two bytes, as far as they fit into
`lineBuffer`. -/
def commands (pieces : List (List UInt8)) : List (List UInt8) :=
  (pieces.filter fun l => 2 ≤ l.length).map fun l => l.take gcodeBufferSize

theorem commands_append (ls ls' : List (List UInt8)) :
    commands (ls ++ ls') = commands ls ++ commands ls' := by simp [commands]

theorem commands_singleton (l : List UInt8) :
    commands [l] = if 2 ≤ l.length then [l.take gcodeBufferSize] else [] := by
  by_cases h : 2 ≤ l.length <;> simp [commands, h]

theorem byte_end_take {lines : List (List UInt8)} {l : List UInt8} {c : UInt8}
    (hc : isLineEnd c = true) (htext : ∀ b ∈ l, isLineEnd b = false) :
    (Reader.byte ⟨lines, l.take gcodeBufferSize⟩ c) = ⟨lines ++ commands [l], []⟩ := by
  have htake : ∀ b ∈ l.take gcodeBufferSize, isLineEnd b = false :=
    fun b hb => htext b (List.mem_of_mem_take hb)
  rw [commands_singleton]
  by_cases hroom : l.length < gcodeBufferSize
  · have hfull : l.take gcodeBufferSize = l := List.take_of_length_le (Nat.le_of_lt hroom)
    rw [hfull] at htake ⊢
    rw [Reader.byte, getLineByte_end hc hroom]
    by_cases hshort : l.length < 2
    · simp [hshort]
    · simp [hshort, lineText_append_end hc htake, Nat.not_lt.mp hshort]
  · have hlen : (l.take gcodeBufferSize).length = gcodeBufferSize := by
      rw [List.length_take]
      omega
    have hlong : 2 ≤ l.length := by
      unfold gcodeBufferSize at hroom
      omega
    have hline : getLineByte (l.take gcodeBufferSize) c = .line (l.take gcodeBufferSize) := by
      simp only [getLineByte, hc, hlen, Nat.lt_irrefl, if_false, if_true]
      rfl
    rw [Reader.byte, hline]
    simp [hlong, lineText_of_forall htake]

theorem byte_text_take {lines : List (List UInt8)} {l : List UInt8} {c : UInt8}
    (hc : isLineEnd c = false) :
    (Reader.byte ⟨lines, l.take gcodeBufferSize⟩ c) =
      ⟨lines, (l ++ [c]).take gcodeBufferSize⟩ := by
  by_cases hroom : l.length < gcodeBufferSize
  · have hfull : l.take gcodeBufferSize = l := List.take_of_length_le (Nat.le_of_lt hroom)
    have hnext : (l ++ [c]).take gcodeBufferSize = l ++ [c] :=
      List.take_of_length_le (by simpa using Nat.succ_le_of_lt hroom)
    rw [hfull, hnext, Reader.byte, getLineByte_text hc hroom]
  · have hlen : (l.take gcodeBufferSize).length = gcodeBufferSize := by
      rw [List.length_take]
      omega
    rw [List.take_append_of_le_length (by omega)]
    simp [Reader.byte, getLineByte, hc, hlen]

/-- Reading a whole text gives its commands, and leaves its last piece in `lineBuffer`. -/
theorem foldl_byte (t : List UInt8) :
    ∃ last, t.splitOnP isLineEnd = textLines t ++ [last] ∧ (∀ b ∈ last, isLineEnd b = false) ∧
      t.foldl Reader.byte ⟨[], []⟩ = ⟨commands (textLines t), last.take gcodeBufferSize⟩ := by
  induction t using List.reverseRecOn with
  | nil => exact ⟨[], rfl, by simp, rfl⟩
  | append_singleton t c ih =>
      obtain ⟨last, hsplit, htext, hfold⟩ := ih
      rw [List.foldl_concat, hfold]
      cases hc : isLineEnd c with
      | true =>
          have hlines : textLines (t ++ [c]) = textLines t ++ [last] := by
            rw [textLines, splitOnP_concat_end hc, List.dropLast_concat, hsplit]
          refine ⟨[], splitOnP_append_end hc, by simp, ?_⟩
          rw [byte_end_take hc htext, hlines, commands_append]
          rfl
      | false =>
          obtain ⟨front, last', hsplit', hconcat⟩ := splitOnP_concat_text t hc
          obtain ⟨hfront, hlast⟩ := List.append_inj' (hsplit'.symm.trans hsplit) rfl
          obtain rfl := List.singleton_inj.mp hlast
          have hlines : textLines (t ++ [c]) = textLines t := by
            rw [textLines, hconcat, List.dropLast_concat, hfront]
          refine ⟨last' ++ [c], by rw [hlines, hconcat, hfront], ?_, ?_⟩
          · intro b hb
            rcases List.mem_append.mp hb with hold | hnew
            · exact htext b hold
            · rwa [List.mem_singleton.mp hnew]
          · rw [byte_text_take hc, hlines]

end TdPrinter
