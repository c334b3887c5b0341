import Mathlib.Data.List.TakeWhile
import TdPrinter.GCode.Processor

/-!
# Which command is executed

A command begins with its letter and number, but `CodeSeek` finds a letter anywhere in the
line, and a `G` is looked for first.  A `G` in the text behind an M command therefore turns
it into a G command.  `dispatch_iff` shows that this is the only way to miss the command.

`commandText` is what `Trim` leaves of a line.
-/

namespace TdPrinter

/-! ## Trim -/

/-- The text of a command: up to the end of the string, a comment or a parenthesis. -/
def commandText (line : List UInt8) : List UInt8 :=
  line.takeWhile fun c => c != 0 && c != 59 && c != 40

def EndsText (c : UInt8) : Prop := c = 0 ∨ c = 59 ∨ c = 40

theorem notMem_commandText {line : List UInt8} {c : UInt8} (hc : EndsText c) :
    c ∉ commandText line := by
  intro hmem
  have htest := List.mem_takeWhile_imp hmem
  rcases hc with rfl | rfl | rfl <;> simp at htest

theorem cutAt_text {code : UInt8} {t : List UInt8} (hcode : code ∉ t) (hzero : 0 ∉ t)
    (s : List UInt8) : cutAt code (t ++ s) = t ++ cutAt code s := by
  induction t with
  | nil => rfl
  | cons c t ih =>
      rw [List.mem_cons, not_or] at hcode hzero
      rw [List.cons_append, cutAt, if_neg (Ne.symm hcode.1), if_neg (Ne.symm hzero.1),
        ih hcode.2 hzero.2, List.cons_append]

theorem length_cutAt (code : UInt8) (s : List UInt8) : (cutAt code s).length = s.length := by
  induction s with
  | nil => rfl
  | cons c s ih =>
      rw [cutAt]
      split
      · rfl
      · split
        · rfl
        · simp [ih]

/-- What `Trim` makes of a line with the text `t`. -/
theorem trim_text {t : List UInt8} (ht : ∀ c, EndsText c → c ∉ t) {e : UInt8} (he : EndsText e)
    (s : List UInt8) : ∃ s', s'.length = s.length ∧ trim (t ++ e :: s) = t ++ 0 :: s' ∧
      (e = 0 → s' = s) := by
  have hzero : (0 : UInt8) ∉ t := ht 0 (Or.inl rfl)
  have hsemi : (59 : UInt8) ∉ t := ht 59 (Or.inr (Or.inl rfl))
  have hparen : (40 : UInt8) ∉ t := ht 40 (Or.inr (Or.inr rfl))
  rw [trim, cutAt_text hsemi hzero]
  rcases he with rfl | rfl | rfl
  · exact ⟨s, rfl, by rw [cutAt, if_neg (by decide), if_pos rfl, cutAt_text hparen hzero]; rfl,
      fun _ => rfl⟩
  · exact ⟨s, rfl, by rw [cutAt, if_pos rfl, cutAt_text hparen hzero]; rfl, by simp⟩
  · refine ⟨cutAt 59 s, length_cutAt 59 s, ?_, by simp⟩
    rw [cutAt, if_neg (by decide), if_neg (by decide), cutAt_text hparen hzero, cutAt, if_pos rfl]

/-- A line with a terminator is its text and an end. -/
theorem commandText_split {line : List UInt8} (hend : 0 ∈ line) :
    ∃ e s, EndsText e ∧ line = commandText line ++ e :: s := by
  have hne : line.dropWhile (fun c => c != 0 && c != 59 && c != 40) ≠ [] := by
    rw [ne_eq, List.dropWhile_eq_nil_iff]
    intro hall
    simpa using hall 0 hend
  have hhead := List.head_dropWhile_not _ hne
  obtain ⟨e, s, hes⟩ := List.exists_cons_of_ne_nil hne
  refine ⟨e, s, ?_, ?_⟩
  · simp only [hes, List.head_cons, Bool.and_eq_false_iff, bne_eq_false_iff_eq] at hhead
    rcases hhead with (h | h) | h
    · exact Or.inl h
    · exact Or.inr (Or.inl h)
    · exact Or.inr (Or.inr h)
  · rw [← hes, commandText, List.takeWhile_append_dropWhile]

/-- The text in front of a command word belongs to the text of the line. -/
theorem commandText_append {t line : List UInt8} (ht : ∀ c, EndsText c → c ∉ t) :
    commandText (t ++ line) = t ++ commandText line := by
  rw [commandText, List.takeWhile_append_of_pos]
  · rfl
  · intro c hc
    have hzero : c ≠ 0 := fun h => ht c (Or.inl h) hc
    have hsemi : c ≠ 59 := fun h => ht c (Or.inr (Or.inl h)) hc
    have hparen : c ≠ 40 := fun h => ht c (Or.inr (Or.inr h)) hc
    simp [hzero, hsemi, hparen]

/-! ## Numbers beyond the switch -/

theorem gCase_large {code : ℤ} (h : 2147483647 ≤ code) : gCase code = .unhandled := by
  unfold gCase
  split <;> first | rfl | omega

theorem mCase_large {code : ℤ} (h : 2147483647 ≤ code) : mCase code = .unhandled := by
  unfold mCase
  split <;> first | rfl | omega

/-- `CodeLong` stops at the largest `int`, which no case of the `switch` has. -/
theorem saturated {α : Type*} {f : ℤ → α} {x : α}
    (hlarge : ∀ code : ℤ, 2147483647 ≤ code → f code = x) (n : ℤ) : f (min 2147483647 n) = f n := by
  rcases le_total n 2147483647 with hle | hge
  · rw [min_eq_right hle]
  · rw [min_eq_left hge, hlarge _ le_rfl, hlarge n hge]

/-! ## The branch of a line -/

/-- The branch that a letter and a number stand for. -/
def branchOf (letter : UInt8) (n : ℤ) : Branch :=
  if letter = 71 then .g (gCase n) else .m (mCase n)

/-- A line that begins with blanks, a `G` or `M`, and a number. -/
structure CommandLine where
  blanks : List UInt8
  letter : UInt8
  digits : List UInt8
  /-- whatever follows, up to the end of the buffer -/
  rest : List UInt8
  blanks_eq : ∀ c ∈ blanks, c = 32 ∨ c = 9
  letter_eq : letter = 71 ∨ letter = 77
  digits_digits : ∀ c ∈ digits, isDigit c = true
  digits_ne : digits ≠ []
  rest_head : ∀ c ∈ rest.head?, isDigit c = false
  terminated : 0 ∈ rest

/-- The line in `lineBuffer`. -/
def CommandLine.text (l : CommandLine) : List UInt8 :=
  l.blanks ++ l.letter :: (l.digits ++ l.rest)

theorem CommandLine.notMem_front (l : CommandLine) {c : UInt8} (hblank : c ≠ 32 ∧ c ≠ 9)
    (hdigit : isDigit c = false) : c ∉ l.blanks ∧ c ∉ l.digits := by
  constructor
  · intro hc
    rcases l.blanks_eq c hc with rfl | rfl
    · exact hblank.1 rfl
    · exact hblank.2 rfl
  · intro hc
    rw [l.digits_digits c hc] at hdigit
    exact Bool.noConfusion hdigit

/-- After `Trim` the rest of the line is its command text, up to a terminator; the number
ends in front of it. -/
theorem CommandLine.trim_eq (l : CommandLine) :
    ∃ z s, trim l.text = l.blanks ++ l.letter :: (l.digits ++ (commandText l.rest ++ 0 :: s)) ∧
      isDigit z = false ∧ ∃ s', commandText l.rest ++ 0 :: s = z :: s' := by
  obtain ⟨e, s, he, hsplit⟩ := commandText_split l.terminated
  have hfront : ∀ c, EndsText c → c ∉ l.blanks ++ l.letter :: (l.digits ++ commandText l.rest) := by
    intro c hc
    have hplain : (c ≠ 32 ∧ c ≠ 9) ∧ isDigit c = false ∧ c ≠ l.letter := by
      rcases l.letter_eq with h | h <;> rcases hc with rfl | rfl | rfl <;>
        exact ⟨by decide, rfl, by rw [h]; decide⟩
    obtain ⟨hblanks, hdigits⟩ := l.notMem_front hplain.1 hplain.2.1
    simp only [List.mem_append, List.mem_cons, not_or]
    exact ⟨hblanks, hplain.2.2, hdigits, notMem_commandText hc⟩
  obtain ⟨s', -, htrim, -⟩ := trim_text hfront he s
  have htext : l.text =
      (l.blanks ++ l.letter :: (l.digits ++ commandText l.rest)) ++ e :: s := by
    rw [CommandLine.text]
    conv_lhs => rw [hsplit]
    simp
  have hstop : ∃ z s'', commandText l.rest ++ 0 :: s' = z :: s'' ∧ isDigit z = false := by
    cases hrest : commandText l.rest with
    | nil => exact ⟨0, s', rfl, rfl⟩
    | cons z u =>
        refine ⟨z, _, rfl, l.rest_head z ?_⟩
        rw [hsplit, hrest]
        rfl
  obtain ⟨z, s'', hz, hdigit⟩ := hstop
  refine ⟨z, s', ?_, hdigit, s'', hz⟩
  rw [htext, htrim]
  simp

theorem CommandLine.atoi_eq (l : CommandLine) {z : UInt8} {s s' : List UInt8}
    (hz : isDigit z = false) (hrest : commandText l.rest ++ 0 :: s = z :: s') :
    atoi (l.digits ++ (commandText l.rest ++ 0 :: s)) = min 2147483647 (natOf l.digits) := by
  rw [hrest]
  exact atoi_digits l.digits_digits l.digits_ne hz s'

/-- A line is executed as what it begins with, exactly if it does not begin with an `M` and
has a `G` in the text behind. -/
theorem dispatch_iff {R : Type*} {g : StepGCode R} {l : CommandLine}
    (hline : g.lineBuffer = l.text) :
    (dispatch g).2 = branchOf l.letter (natOf l.digits) ↔
      (l.letter = 77 → 71 ∉ commandText l.rest) := by
  obtain ⟨z, s, htrim, hz, s', hrest⟩ := l.trim_eq
  have hnumber := l.atoi_eq hz hrest
  obtain ⟨hgBlanks, hgDigits⟩ := l.notMem_front (c := 71) (by decide) rfl
  obtain ⟨hmBlanks, -⟩ := l.notMem_front (c := 77) (by decide) rfl
  obtain ⟨hzeroBlanks, hzeroDigits⟩ := l.notMem_front (c := 0) (by decide) rfl
  have hzero : (0 : UInt8) ∉ l.digits ++ commandText l.rest := by
    rw [List.mem_append, not_or]
    exact ⟨hzeroDigits, notMem_commandText (Or.inl rfl)⟩
  unfold dispatch
  simp only [hline, htrim]
  rcases l.letter_eq with hletter | hletter
  · -- the first letter that is looked for is the one in front
    have hseek := strchr_text hzeroBlanks hgBlanks (l.digits ++ (commandText l.rest ++ 0 :: s))
    rw [hletter]
    simp only [codeSeek, hseek, Option.map_some, codeLong, List.tail_cons, hnumber]
    simp [branchOf, saturated fun _ => gCase_large]
  · have hfront : (0 : UInt8) ∉ l.blanks ++ 77 :: (l.digits ++ commandText l.rest) := by
      rw [List.mem_append, List.mem_cons, not_or, not_or]
      exact ⟨hzeroBlanks, by decide, hzero⟩
    have hfound := strchr_isSome_iff (c := 71) hfront
    simp only [List.mem_append, List.mem_cons, hgBlanks, hgDigits, false_or,
      (by decide : (71 : UInt8) ≠ 77)] at hfound
    have hsearch := strchr_append (c := 71) (by decide) _ s hfront
    simp only [List.append_assoc, List.cons_append] at hsearch
    rw [hletter]
    by_cases hg : (71 : UInt8) ∈ commandText l.rest
    · -- a `G` further behind is found
      obtain ⟨lp, hlp⟩ := Option.isSome_iff_exists.mp (hfound.mpr hg)
      rw [hlp, Option.map_some] at hsearch
      simp only [codeSeek, hsearch, Option.map_some]
      simp [branchOf, hg]
    · have hnone := Option.not_isSome_iff_eq_none.mp (mt hfound.mp hg)
      have hseek := strchr_text hzeroBlanks hmBlanks (l.digits ++ (commandText l.rest ++ 0 :: s))
      rw [hnone, Option.map_none] at hsearch
      simp only [codeSeek, hsearch, Option.map_none, hseek, Option.map_some, codeLong,
        List.tail_cons, hnumber]
      simp [branchOf, hg, saturated fun _ => mCase_large]

/-- `M117 GO`. -/
def messageLine : CommandLine where
  blanks := []
  letter := 77
  digits := [49, 49, 55]
  rest := [32, 71, 79, 10, 0]
  blanks_eq := by simp
  letter_eq := Or.inr rfl
  digits_digits := by simp [isDigit]
  digits_ne := by simp
  rest_head := by simp [isDigit]
  terminated := by decide

theorem dispatch_iff_messageLine :
    (dispatch (startedWith messageLine.text : StepGCode ℚ)).2 =
        branchOf messageLine.letter (natOf messageLine.digits) ↔
      (messageLine.letter = 77 → 71 ∉ commandText messageLine.rest) :=
  dispatch_iff rfl

/-- The message is executed as a G0. -/
theorem messageLine_moves :
    (dispatch (startedWith messageLine.text : StepGCode ℚ)).2 = .g .g0 ∧
      (dispatch (startedWith messageLine.text : StepGCode ℚ)).2 ≠
        branchOf messageLine.letter (natOf messageLine.digits) := by
  decide

end TdPrinter
