import TdPrinter.GCode.Processor

/-!
# What ReadAxis reads

`ReadAxis` looks for each of its letters in the whole line.  What it finds for one letter,
`seekFP`, does not depend on the others, so that its result is that of six separate
searches (`readAxis_words`).
-/

namespace TdPrinter

/-- What `ReadAxis` sets. -/
@[ext]
structure Words (R : Type*) where
  speed : R
  seen : Axis → Bool
  value : Axis → R

variable {R : Type*} [Field R]

/-- `CodeSeek` and `CodeFP`: the number of a word, if the letter is in the line. -/
def seekFP (line : List UInt8) (code : UInt8) : Option (Option R) :=
  match strchr code line with
  | none => some none
  | some lp => (myAtof lp.tail).map some

omit [Field R] in
def StepGCode.words (g : StepGCode R) : Words R := ⟨g.speed, g.seen, g.value⟩

/-- The words `F`, `X`, `Y`, `E`, `A` and `Z` of a line. -/
def wordsOf (speed : R) (f x y e a z : Option R) : Words R where
  speed := f.elim speed (· / 60)
  seen := ![x.isSome, y.isSome, e.isSome, a.isSome || z.isSome]
  value := ![x.getD 0, y.getD 0, e.getD 0, z.getD (a.getD 0)]

omit [Field R] in
def seekLp (code : UInt8) (g : StepGCode R) : List UInt8 :=
  (strchr code g.lineBuffer).elim g.codeLp List.tail

theorem readSpeed_eq (g : StepGCode R) :
    readSpeed g = (seekFP g.lineBuffer 70).map fun f =>
      { g with speed := f.elim g.speed (· / 60), codeLp := seekLp 70 g } := by
  unfold readSpeed codeSeek seekFP seekLp
  cases strchr 70 g.lineBuffer with
  | none => rfl
  | some lp => cases h : (myAtof lp.tail : Option R) <;> simp [codeFP, h]

theorem readAxisWord_eq (g : StepGCode R) (i : Axis) :
    readAxisWord g i = (seekFP g.lineBuffer (axisCode i)).map fun x =>
      { g with
        seen := Function.update g.seen i x.isSome
        value := Function.update g.value i (x.getD 0)
        codeLp := seekLp (axisCode i) g } := by
  unfold readAxisWord codeSeek seekFP seekLp
  cases strchr (axisCode i) g.lineBuffer with
  | none => rfl
  | some lp => cases h : (myAtof lp.tail : Option R) <;> simp [setAxis, codeFP, h]

theorem readZ_eq (g : StepGCode R) :
    readZ g = (seekFP g.lineBuffer 90).map fun z =>
      { g with
        seen := Function.update g.seen 3 (g.seen 3 || z.isSome)
        value := Function.update g.value 3 (z.getD (g.value 3))
        codeLp := seekLp 90 g } := by
  have haxes : (axes.filter fun i => 3 ≤ i.val) = [3] := by decide
  unfold readZ codeSeek seekFP seekLp
  cases strchr 90 g.lineBuffer with
  | none => simp
  | some lp =>
      rw [haxes]
      cases h : (myAtof lp.tail : Option R) <;> simp [setAxis, codeFP, h]

omit [Field R] in
theorem update_axes {α : Type*} (s : Axis → α) (a b c d : α) :
    Function.update (Function.update (Function.update (Function.update s 0 a) 1 b) 2 c) 3 d =
      ![a, b, c, d] := by
  funext i
  fin_cases i <;> rfl

omit [Field R] in
theorem update_lastAxis {α : Type*} (a b c d d' : α) :
    Function.update (![a, b, c, d] : Axis → α) 3 d' = ![a, b, c, d'] := by
  funext i
  fin_cases i <;> rfl

/-- Each letter is searched for and read on its own. -/
theorem readAxis_words (g : StepGCode R) :
    (readAxis g).map StepGCode.words =
      (seekFP g.lineBuffer 70).bind fun f => (seekFP g.lineBuffer 88).bind fun x =>
        (seekFP g.lineBuffer 89).bind fun y => (seekFP g.lineBuffer 69).bind fun e =>
          (seekFP g.lineBuffer 65).bind fun a => (seekFP g.lineBuffer 90).map fun z =>
            wordsOf g.speed f x y e a z := by
  have haxes : axes = [0, 1, 2, 3] := by decide
  have hx : axisCode 0 = 88 := rfl
  have hy : axisCode 1 = 89 := rfl
  have he : axisCode 2 = 69 := rfl
  have ha : axisCode 3 = 65 := rfl
  simp only [readAxis, readSpeed_eq, haxes, List.foldlM_cons, List.foldlM_nil, readAxisWord_eq,
    readZ_eq, hx, hy, he, ha, Option.bind_eq_bind, Option.pure_def, Option.bind_map,
    Option.map_bind, Option.bind_assoc, Option.bind_some, Option.map_map, Function.comp_def]
  simp only [StepGCode.words, Function.update_self, update_axes, update_lastAxis]
  rfl

/-- The letters of `ReadAxis`. -/
def axisLetters : List UInt8 := [70, 88, 89, 69, 65, 90]

omit [Field R] in
theorem ne_zero_of_mem_axisLetters {c : UInt8} (hc : c ∈ axisLetters) : c ≠ 0 := by
  rintro rfl
  exact absurd hc (by decide)

theorem readAxis_isSome_iff (g : StepGCode R) :
    (readAxis g).isSome ↔ ∀ code ∈ axisLetters, (seekFP (R := R) g.lineBuffer code).isSome := by
  have hwords : (readAxis g).isSome = ((readAxis g).map StepGCode.words).isSome := by
    rw [Option.isSome_map]
  rw [hwords, readAxis_words]
  simp only [axisLetters, List.forall_mem_cons, List.not_mem_nil, false_imp_iff, implies_true,
    and_true]
  cases seekFP (R := R) g.lineBuffer 70 <;> cases seekFP (R := R) g.lineBuffer 88 <;>
    cases seekFP (R := R) g.lineBuffer 89 <;> cases seekFP (R := R) g.lineBuffer 69 <;>
    cases seekFP (R := R) g.lineBuffer 65 <;> cases seekFP (R := R) g.lineBuffer 90 <;> simp

/-- Lines in which its searches find the same have the same outcome. -/
theorem readAxis_congr {g : StepGCode R} {line line' : List UInt8}
    (h : ∀ code ∈ axisLetters, seekFP (R := R) line code = seekFP line' code) :
    (readAxis { g with lineBuffer := line }).map StepGCode.words =
      (readAxis { g with lineBuffer := line' }).map StepGCode.words := by
  simp only [axisLetters, List.forall_mem_cons] at h
  obtain ⟨hf, hx, hy, he, ha, hz, -⟩ := h
  rw [readAxis_words, readAxis_words]
  simp only [hf, hx, hy, he, ha, hz]

theorem seekFP_text {t : List UInt8} (ht : 0 ∉ t) {code : UInt8} (hcode : code ≠ 0)
    (s : List UInt8) :
    seekFP (R := R) (t ++ 0 :: s) code =
      match strchr code t with
      | none => some none
      | some lp => (myAtof (lp.tail ++ 0 :: s)).map some := by
  rw [seekFP, strchr_append hcode t s ht]
  cases hlp : strchr code t with
  | none => rfl
  | some lp =>
      rw [Option.map_some]
      dsimp only
      rw [strchr_eq_some hlp, List.cons_append, List.tail_cons, List.tail_cons]

end TdPrinter
