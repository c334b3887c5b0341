import TdPrinter.GCode.Language
import TdPrinter.Position.StepPosition

/-!
# Programs in the processor

From the text of a statement the processor reads what the statement says, whatever lies behind it
in the buffer (`Statement.run_eq`): there is no letter in the line but those of the statement, and
no number that another one follows without a space.
-/

namespace TdPrinter

/-! ## The text in the buffer -/

def Statement.tail (s : Statement) (stale : List UInt8) : List UInt8 :=
  s.words.flatMap GCodeWord.text ++ ((s.comment.map (59 :: ·)).getD [] ++ 10 :: 0 :: stale)

theorem Statement.text_append (s : Statement) (stale : List UInt8) :
    s.text ++ 10 :: 0 :: stale = s.op.letter :: (s.op.digits ++ s.tail stale) := by
  simp [Statement.text, statementText, Statement.tail]

theorem Op.digits_digits (op : Op) : ∀ c ∈ op.digits, isDigit c = true := by
  refine List.all_eq_true.mp ?_
  cases op <;> rfl

theorem Op.letter_eq (op : Op) : op.letter = 71 ∨ op.letter = 77 := by
  cases op <;> decide

theorem Op.digits_ne (op : Op) : op.digits ≠ [] := by
  cases op <;> decide

theorem noBlanks_eq : ∀ c ∈ ([] : List UInt8), c = 32 ∨ c = 9 :=
  List.forall_mem_nil _

/-- The line as one of `dispatch`. -/
def Statement.commandLine (s : Statement) (stale : List UInt8) : CommandLine where
  blanks := []
  letter := s.op.letter
  digits := s.op.digits
  rest := s.tail stale
  blanks_eq := noBlanks_eq
  letter_eq := s.op.letter_eq
  digits_digits := s.op.digits_digits
  digits_ne := s.op.digits_ne
  rest_head := by
    intro c hc
    have hwords := s.spaced
    simp only [Statement.tail] at hc
    cases hw : s.words with
    | nil =>
        rw [hw] at hc
        cases hcomment : s.comment with
        | none =>
            rw [hcomment] at hc
            obtain rfl : 10 = c := by simpa using hc
            rfl
        | some t =>
            rw [hcomment] at hc
            obtain rfl : 59 = c := by simpa using hc
            rfl
    | cons w ws =>
        have hspace := hwords w (by simp [hw])
        obtain ⟨n, hn⟩ := Nat.exists_eq_add_of_le' hspace
        rw [hw, List.flatMap_cons, GCodeWord.text, hn, List.replicate_succ] at hc
        obtain rfl : 32 = c := by simpa using hc
        rfl
  terminated := by simp [Statement.tail]

/-- The line as one of `ReadAxis`: its end belongs to it if there is no comment. -/
def Statement.wordLine (s : Statement) : WordLine where
  command := s.op.letter :: s.op.digits
  words := s.words
  trailing := if s.comment.isSome then [] else [10]
  command_plain := by
    have hall : ∀ op : Op, ∀ c ∈ op.letter :: op.digits,
        c ∉ axisLetters ∧ ¬(c = 0 ∨ c = 59 ∨ c = 40) := by
      intro op
      cases op <;> simp [Op.letter, Op.digits, axisLetters]
    exact hall s.op
  trailing_space := by
    split
    · simp
    · simp [myIsspace]
  nodup := s.nodup

/-- The words are in front of a comment or of the terminator. -/
theorem Statement.wordLine_text (s : Statement) (stale : List UInt8) :
    ∃ z t, EndsText z ∧ s.text ++ 10 :: 0 :: stale = s.wordLine.text ++ z :: t := by
  cases hcomment : s.comment with
  | none =>
      refine ⟨0, stale, Or.inl rfl, ?_⟩
      simp [Statement.text, statementText, WordLine.text, Statement.wordLine, hcomment]
  | some t =>
      refine ⟨59, t ++ 10 :: 0 :: stale, Or.inr (Or.inl rfl), ?_⟩
      simp [Statement.text, statementText, WordLine.text, Statement.wordLine, hcomment]

/-! ## What the processor reads -/

section

variable {R : Type*}

/-- The branch of a line whose text has no `G` behind an `M`. -/
theorem CommandLine.dispatch_eq {g : StepGCode R} {l : CommandLine} (hline : g.lineBuffer = l.text)
    (hplain : l.letter = 77 → 71 ∉ commandText l.rest) :
    ∃ lp, dispatch g = ({ g with lineBuffer := trim l.text, codeLp := lp },
      branchOf l.letter (min 2147483647 (natOf l.digits) : ℕ)) := by
  obtain ⟨z, u, htrim, hz, u', hrest⟩ := l.trim_eq
  have hnumber := l.atoi_eq hz hrest
  have hzero : 0 ∉ l.blanks ∧ 0 ∉ l.digits := l.notMem_front (by decide) rfl
  have hseek : ∀ c : UInt8, c = l.letter → c ∉ l.blanks → strchr c (trim l.text) =
      some (c :: (l.digits ++ (commandText l.rest ++ 0 :: u))) := by
    rintro c rfl hc
    rw [htrim]
    exact strchr_text hzero.1 hc _
  have hblanks : ∀ c : UInt8, c = 71 ∨ c = 77 → c ∉ l.blanks ∧ c ∉ l.digits := by
    rintro c (rfl | rfl)
    · exact l.notMem_front (by decide) rfl
    · exact l.notMem_front (by decide) rfl
  refine ⟨l.digits ++ (commandText l.rest ++ 0 :: u), ?_⟩
  unfold dispatch
  simp only [hline]
  rcases l.letter_eq with hletter | hletter
  · simp only [codeSeek, hseek 71 hletter.symm (hblanks 71 (Or.inl rfl)).1, Option.map_some,
      List.tail_cons, codeLong, hnumber, hletter]
    rfl
  · have htext : 71 ∉ l.blanks ++ l.letter :: (l.digits ++ commandText l.rest) := by
      obtain ⟨hfront, hdigits⟩ := hblanks 71 (Or.inl rfl)
      simp only [List.mem_append, List.mem_cons, not_or]
      exact ⟨hfront, by rw [hletter]; decide, hdigits, hplain hletter⟩
    have hends : 0 ∉ l.blanks ++ l.letter :: (l.digits ++ commandText l.rest) := by
      simp only [List.mem_append, List.mem_cons, not_or]
      exact ⟨hzero.1, by rw [hletter]; decide, hzero.2, notMem_commandText (Or.inl rfl)⟩
    have hnone : strchr 71 (trim l.text) = none := by
      have hsplit : trim l.text =
          (l.blanks ++ l.letter :: (l.digits ++ commandText l.rest)) ++ 0 :: u := by
        rw [htrim]
        simp
      rw [hsplit, strchr_skip hends htext]
      rfl
    simp only [codeSeek, hnone, hseek 77 hletter.symm (hblanks 77 (Or.inr rfl)).1, Option.map_some,
      Option.map_none, List.tail_cons, codeLong, hnumber, hletter]
    rfl

/-- There are only letters of axes in the words, and numbers. -/
theorem Statement.notMem_words (s : Statement) {c : UInt8}
    (hc : c ≠ 32 ∧ (c ≠ 43 ∧ c ≠ 45) ∧ c ≠ 46 ∧ isDigit c = false) (hletter : c ∉ axisLetters) :
    c ∉ s.words.flatMap GCodeWord.text := by
  simp only [List.mem_flatMap, not_exists, not_and]
  intro w _
  refine w.notMem_text hc ?_
  rintro rfl
  exact hletter w.letter_mem

theorem Statement.notMem_tail (s : Statement) (stale : List UInt8) :
    71 ∉ commandText (s.tail stale) := by
  have hends : ∀ c, EndsText c → c ∉ s.words.flatMap GCodeWord.text := by
    intro c hc
    refine s.notMem_words (plain_of_endsText hc) fun hletter => ?_
    exact (plain_of_mem_axisLetters hletter).2.2.2.2.2 hc
  rw [Statement.tail, commandText_append hends, List.mem_append, not_or]
  refine ⟨s.notMem_words (by decide) (by decide), ?_⟩
  cases s.comment <;> simp [commandText]

theorem Statement.text_lineEnd (s : Statement) : ∀ c ∈ s.text, isLineEnd c = false := by
  have hplain : ∀ c, isLineEnd c = true →
      (c ≠ 32 ∧ (c ≠ 43 ∧ c ≠ 45) ∧ c ≠ 46 ∧ isDigit c = false) ∧ c ∉ axisLetters := by
    intro c hc
    simp only [isLineEnd, Bool.or_eq_true, beq_iff_eq] at hc
    rcases hc with (rfl | rfl) | rfl <;> decide
  have hcommand : ∀ op : Op, ∀ c ∈ op.letter :: op.digits, isLineEnd c = false := by
    intro op
    cases op <;> simp [Op.letter, Op.digits, isLineEnd]
  intro c hc
  by_contra hend
  rw [Bool.not_eq_false] at hend
  obtain ⟨hnone, hletter⟩ := hplain c hend
  rw [Statement.text, statementText, ← List.cons_append, List.mem_append, List.mem_append] at hc
  rcases hc with hc | hc | hc
  · exact absurd (hend.symm.trans (hcommand s.op c hc)) (by decide)
  · exact s.notMem_words hnone hletter hc
  · have htext := s.comment_text
    cases hcomment : s.comment with
    | none => simp [hcomment] at hc
    | some t =>
        rw [hcomment] at hc htext
        rcases List.mem_cons.mp hc with rfl | hc
        · exact absurd hend (by decide)
        · exact absurd (hend.symm.trans (htext c hc)) (by decide)

def Op.branch : Op → Branch
  | .rapid => .g .g0
  | .linear => .g .g1
  | .absolute => .g .g90
  | .relative => .g .g91
  | .setPosition => .g .g92
  | .extruderAbsolute => .m .m82
  | .extruderRelative => .m .m83
  | .accelOn => .m .m443
  | .accelOff => .m .m444

theorem Statement.dispatch_eq {s : Statement} {g : StepGCode R} {stale : List UInt8}
    (hline : g.lineBuffer = s.text ++ 10 :: 0 :: stale) :
    ∃ lp, dispatch g = ({ g with lineBuffer := trim g.lineBuffer, codeLp := lp }, s.op.branch) := by
  have htext : g.lineBuffer = (s.commandLine stale).text := by rw [hline, s.text_append]; rfl
  obtain ⟨lp, hdispatch⟩ := CommandLine.dispatch_eq htext fun _ => s.notMem_tail stale
  refine ⟨lp, ?_⟩
  rw [hdispatch, htext]
  have hbranch : ∀ op : Op,
      branchOf op.letter (min 2147483647 (natOf op.digits) : ℕ) = op.branch := by
    intro op
    cases op <;> decide
  exact congrArg _ (hbranch s.op)

variable [Field R]

theorem readAxis_relative {g g' : StepGCode R} (h : readAxis g = some g') :
    g'.relative = g.relative := by
  have hspeed : ∀ {g g' : StepGCode R}, readSpeed g = some g' → g'.relative = g.relative := by
    intro g g' h
    rw [readSpeed_eq] at h
    obtain ⟨_, -, rfl⟩ := Option.map_eq_some_iff.mp h
    rfl
  have hword : ∀ {i : Axis} {g g' : StepGCode R}, readAxisWord g i = some g' →
      g'.relative = g.relative := by
    intro i g g' h
    rw [readAxisWord_eq] at h
    obtain ⟨_, -, rfl⟩ := Option.map_eq_some_iff.mp h
    rfl
  have hwords : ∀ (is : List Axis) {g g' : StepGCode R}, is.foldlM readAxisWord g = some g' →
      g'.relative = g.relative := by
    intro is
    induction is with
    | nil => exact fun h => by rw [Option.some.inj h]
    | cons i is ih =>
        intro g g' h
        rw [List.foldlM_cons] at h
        obtain ⟨g₁, hfirst, hrest⟩ := Option.bind_eq_some_iff.mp h
        exact (ih hrest).trans (hword hfirst)
  obtain ⟨g₁, h₁, h⟩ := Option.bind_eq_some_iff.mp h
  obtain ⟨g₂, h₂, h₃⟩ := Option.bind_eq_some_iff.mp h
  rw [readZ_eq] at h₃
  obtain ⟨_, -, rfl⟩ := Option.map_eq_some_iff.mp h₃
  exact (hwords axes h₂).trans (hspeed h₁)

variable [CharZero R]

/-- With a space in front of each letter, what is read is what is written. -/
theorem Statement.readAxis_eq (s : Statement) {g : StepGCode R} {stale : List UInt8}
    (hline : g.lineBuffer = trim (s.text ++ 10 :: 0 :: stale)) :
    ∃ g', readAxis g = some g' ∧ g'.relative = g.relative ∧
      ∀ i, g'.seen i = (s.number (R := R) i).isSome ∧ g'.value i = (s.number i).getD 0 := by
  obtain ⟨z, t, hz, htext⟩ := s.wordLine_text stale
  have hread := readAxis_wordLine s.wordLine hz t g
  rw [← htext, ← hline] at hread
  have happart : ∀ c, (numberRead c s.words : Option R) = numberWritten c s.words := by
    intro c
    rw [numberRead_eq_iff s.nodup, List.isChain_iff_forall_rel_of_append_cons_cons]
    intro w e pre post hwords _ _ hspaces
    have hspaced := s.spaced e (by rw [hwords]; simp)
    omega
  obtain ⟨g', hg', hwords⟩ := Option.map_eq_some_iff.mp hread
  refine ⟨g', hg', readAxis_relative hg', ?_⟩
  have hwordLine : s.wordLine.words = s.words := rfl
  simp only [hwordLine, happart] at hwords
  have hseen := congrArg Words.seen hwords
  have hvalue := congrArg Words.value hwords
  simp only [StepGCode.words, wordsOf] at hseen hvalue
  intro i
  rw [hseen, hvalue]
  have hlast : ∀ a z : Option R, (z.or a).isSome = (a.isSome || z.isSome) ∧
      (z.or a).getD 0 = z.getD (a.getD 0) := by
    intro a z
    cases z <;> simp
  fin_cases i
  · exact ⟨rfl, rfl⟩
  · exact ⟨rfl, rfl⟩
  · exact ⟨rfl, rfl⟩
  · exact ⟨(hlast _ _).1.symm, (hlast _ _).2.symm⟩

/-- The calls of a statement that has been read. -/
structure Statement.Calls (s : Statement) (relative : Axis → Bool) (calls : List (GCodeCall R)) :
    Prop where
  moves : s.op = .rapid ∨ s.op = .linear → ∃ value seen speed useAccel,
    calls = [.inputNextPosition value relative seen speed useAccel] ∧
      ∀ mm motor, moveTo mm value relative seen = s.goal ⟨relative, mm, motor⟩
  sets : s.op = .setPosition → ∃ value seen, calls = [.setMm value (fun _ => false) seen] ∧
      ∀ mm, moveTo mm value (fun _ => false) seen = fun i => (s.number i).getD (mm i)
  others : s.op ≠ .rapid → s.op ≠ .linear → s.op ≠ .setPosition → calls = []

omit [CharZero R] in
theorem Statement.moveTo_goal (s : Statement) {value : Axis → R} {seen : Axis → Bool}
    (h : ∀ i, seen i = (s.number (R := R) i).isSome ∧ value i = (s.number i).getD 0)
    (m : Meaning R) : moveTo m.mm value m.relative seen = s.goal m := by
  funext i
  obtain ⟨hseen, hvalue⟩ := h i
  rw [moveTo, Statement.goal, hseen, hvalue]
  cases s.number (R := R) i <;> rfl

omit [CharZero R] in
theorem Statement.moveTo_number (s : Statement) {value : Axis → R} {seen : Axis → Bool}
    (h : ∀ i, seen i = (s.number (R := R) i).isSome ∧ value i = (s.number i).getD 0)
    (mm : Axis → R) :
    moveTo mm value (fun _ => false) seen = fun i => (s.number i).getD (mm i) := by
  funext i
  obtain ⟨hseen, hvalue⟩ := h i
  rw [moveTo, hseen, hvalue]
  cases s.number (R := R) i <;> rfl

/-- The processor does what a statement says, whatever lies behind it in the buffer. -/
theorem Statement.run_eq (s : Statement) {g : StepGCode R} {stale : List UInt8}
    (hline : g.lineBuffer = s.text ++ 10 :: 0 :: stale) (env : Surroundings R) (param : Param R) :
    ∃ o, stepGCodeProcessorRun env param g = some o ∧ o.param = param ∧
      o.g.relative = s.op.modes g.relative ∧ s.Calls g.relative o.calls := by
  obtain ⟨lp, hdispatch⟩ := s.dispatch_eq hline
  obtain ⟨g', hread, hrelative, hwords⟩ := s.readAxis_eq
    (g := { g with lineBuffer := trim (s.text ++ 10 :: 0 :: stale), codeLp := lp }) rfl
  have hrelative : g'.relative = g.relative := hrelative
  rw [stepGCodeProcessorRun, hdispatch, hline]
  cases hop : s.op with
  | rapid | linear =>
      simp only [Op.branch, GCase.run, hread, Option.map_some]
      refine ⟨_, rfl, rfl, hrelative, fun _ => ?_, by simp [hop], by simp [hop]⟩
      rw [hrelative]
      exact ⟨_, _, _, _, rfl, fun mm motor => s.moveTo_goal hwords ⟨g.relative, mm, motor⟩⟩
  | setPosition =>
      simp only [Op.branch, GCase.run, hread, Option.map_some]
      refine ⟨_, rfl, rfl, hrelative, by simp [hop], fun _ => ?_, by simp [hop]⟩
      exact ⟨_, _, rfl, fun mm => s.moveTo_number hwords mm⟩
  | absolute | relative | extruderAbsolute | extruderRelative | accelOn | accelOff =>
      exact ⟨_, rfl, rfl, rfl, by simp [hop], by simp [hop], fun _ _ _ => rfl⟩

end

end TdPrinter
