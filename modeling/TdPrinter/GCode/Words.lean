import TdPrinter.GCode.Dispatch
import TdPrinter.GCode.ReadAxis

/-!
# Words next to each other

A line of parameter words is read word by word, since each letter stands only in front of
its own number.  There is one exception.  The letter `E` is also the mark of an exponent:
behind a number, without a space, it belongs to that number, and what is read is not what
is written (`readAxis_iff`).
-/

namespace TdPrinter

/-! ## Literals in a line -/

theorem Literal.notMem_text (l : Literal) {c : UInt8} (hsign : c ≠ 43 ∧ c ≠ 45) (hpoint : c ≠ 46)
    (hdigit : isDigit c = false) : c ∉ l.text := by
  simp only [Literal.text, List.mem_append, Option.mem_toList, not_or]
  refine ⟨?_, ?_, ?_⟩
  · intro hc
    rcases l.sign_eq c hc with rfl | rfl
    · exact hsign.1 rfl
    · exact hsign.2 rfl
  · intro hc
    rw [l.int_digits c hc] at hdigit
    exact Bool.noConfusion hdigit
  · intro hc
    cases hl : l.frac with
    | none => simp [hl] at hc
    | some ds =>
        simp only [hl, Option.map_some, Option.getD_some, List.mem_cons] at hc
        rcases hc with rfl | hc
        · exact hpoint rfl
        · rw [l.frac_digits c (by rwa [hl])] at hdigit
          exact Bool.noConfusion hdigit

section

variable {R : Type*} [Field R]

/-- The number with magnitude `value` and the exponent that `E` makes of the literal behind it.
The exponent ends at the point, and one that begins with it is none. -/
def Literal.asExponent (l : Literal) (value : R) : R :=
  if l.sign = none ∧ l.int = [] then 0 else value * powerBase R l.sign ^ (natOf l.int % 2 ^ 32)

/-- An exponent that does not change the number: it is 0, modulo `2 ^ 32`. -/
def Literal.Neutral (l : Literal) : Prop :=
  (l.sign = none → l.int ≠ []) ∧ natOf l.int % 2 ^ 32 = 0

variable [CharZero R]

omit [CharZero R] in
theorem readExponent_literal (l : Literal) (start : List UInt8) (value : R) {z : UInt8}
    (hz : isDigit z = false) (s : List UInt8) :
    (readExponent start value (69 :: (l.text ++ z :: s))).map Prod.fst =
      some (l.asExponent value) := by
  obtain ⟨e, w, hrest, he⟩ : ∃ e w,
      (l.frac.map (46 :: ·)).getD [] ++ z :: s = e :: w ∧ isDigit e = false := by
    cases l.frac with
    | none => exact ⟨z, s, rfl, hz⟩
    | some ds => exact ⟨46, _, rfl, rfl⟩
  have htext : l.text ++ z :: s = l.sign.toList ++ (l.int ++ e :: w) := by
    rw [Literal.text, List.append_assoc, List.append_assoc, hrest]
  rw [htext, Literal.asExponent]
  by_cases hnone : l.sign = none ∧ l.int = []
  · -- the literal begins with its point
    have hpoint : e = 46 := by
      cases hfrac : l.frac with
      | none => exact absurd (by simp [hnone.2, hfrac]) l.digits_ne
      | some ds =>
          simp only [hfrac, Option.map_some, Option.getD_some, List.cons_append] at hrest
          exact (List.cons.inj hrest).1.symm
    rw [if_pos hnone, hnone.1, hnone.2, hpoint, Option.toList_none, List.nil_append,
      List.nil_append, readExponent_refused (by decide) (by decide) (by decide) rfl,
      Option.map_some]
  · rw [if_neg hnone, readExponent_text (by decide) l.sign_eq l.int_digits
      (fun hsign hint => hnone ⟨hsign, hint⟩) he, Option.map_some]

theorem powerBase_pow_eq_one_iff (sign : Option UInt8) (n : ℕ) :
    powerBase R sign ^ n = 1 ↔ n = 0 := by
  have hten : (10 : R) ^ n = 1 ↔ n = 0 := by
    have hcast : (10 : R) ^ n = ((10 ^ n : ℕ) : R) := by push_cast; rfl
    rw [hcast, Nat.cast_eq_one, Nat.pow_eq_one]
    simp
  unfold powerBase
  split
  · rw [one_div, inv_pow, inv_eq_one, hten]
  · exact hten

theorem Literal.asExponent_eq_iff (l : Literal) (value : R) :
    l.asExponent value = value ↔ value = 0 ∨ l.Neutral := by
  unfold Literal.asExponent Literal.Neutral
  by_cases hnone : l.sign = none ∧ l.int = []
  · rw [if_pos hnone, eq_comm]
    simp [hnone.1, hnone.2]
  · have hint : l.sign = none → l.int ≠ [] := fun hsign hint => hnone ⟨hsign, hint⟩
    rw [if_neg hnone, mul_right_eq_self₀, powerBase_pow_eq_one_iff]
    exact ⟨fun h => h.symm.imp_right fun hpower => ⟨hint, hpower⟩,
      fun h => (h.imp_right And.right).symm⟩

omit [CharZero R] in
theorem Literal.value_eq_zero_iff (l : Literal) :
    (l.value : R) = 0 ↔ (l.magnitude : R) = 0 := by
  show signed l.sign l.magnitude = 0 ↔ _
  unfold signed
  split
  · exact neg_eq_zero
  · rfl

omit [CharZero R] in
theorem signed_inj (sign : Option UInt8) {x y : R} : signed sign x = signed sign y ↔ x = y := by
  unfold signed
  split
  · exact neg_inj
  · rfl

end

/-! ## Lines of words -/

/-- A parameter word, with the spaces in front of it. -/
structure GCodeWord where
  spaces : ℕ
  letter : UInt8
  number : Literal
  letter_mem : letter ∈ axisLetters

def GCodeWord.text (w : GCodeWord) : List UInt8 :=
  List.replicate w.spaces 32 ++ w.letter :: w.number.text

/-- A line of a command word and parameter words. -/
structure WordLine where
  /-- the command word, and anything else in front of the first letter that is looked for -/
  command : List UInt8
  words : List GCodeWord
  /-- white space and the line end -/
  trailing : List UInt8
  command_plain : ∀ c ∈ command, c ∉ axisLetters ∧ ¬EndsText c
  trailing_space : ∀ c ∈ trailing, myIsspace c = true ∧ c ≠ 0
  /-- no letter occurs twice -/
  nodup : (words.map GCodeWord.letter).Nodup

def WordLine.text (l : WordLine) : List UInt8 :=
  l.command ++ (l.words.flatMap GCodeWord.text ++ l.trailing)

theorem plain_of_mem_axisLetters {c : UInt8} (hc : c ∈ axisLetters) :
    c ≠ 32 ∧ (c ≠ 43 ∧ c ≠ 45) ∧ c ≠ 46 ∧ isDigit c = false ∧ c ≠ 0 ∧ ¬EndsText c := by
  have hall : ∀ c ∈ axisLetters,
      c ≠ 32 ∧ (c ≠ 43 ∧ c ≠ 45) ∧ c ≠ 46 ∧ isDigit c = false ∧ c ≠ 0 ∧ c ≠ 59 ∧ c ≠ 40 := by
    simp [axisLetters, isDigit]
  obtain ⟨h₁, h₂, h₃, h₄, hzero, hsemi, hparen⟩ := hall c hc
  refine ⟨h₁, h₂, h₃, h₄, hzero, ?_⟩
  rintro (h | h | h)
  · exact hzero h
  · exact hsemi h
  · exact hparen h

theorem plain_of_endsText {c : UInt8} (hc : EndsText c) :
    c ≠ 32 ∧ (c ≠ 43 ∧ c ≠ 45) ∧ c ≠ 46 ∧ isDigit c = false := by
  rcases hc with rfl | rfl | rfl <;> decide

/-- What is neither a space, nor in a number, nor the letter, is not in the word. -/
theorem GCodeWord.notMem_text (w : GCodeWord) {c : UInt8}
    (hc : c ≠ 32 ∧ (c ≠ 43 ∧ c ≠ 45) ∧ c ≠ 46 ∧ isDigit c = false) (hletter : c ≠ w.letter) :
    c ∉ w.text := by
  obtain ⟨hspace, hsign, hpoint, hdigit⟩ := hc
  simp only [GCodeWord.text, List.mem_append, List.mem_cons, not_or]
  exact ⟨fun h => hspace (List.eq_of_mem_replicate h), hletter,
    w.number.notMem_text hsign hpoint hdigit⟩

theorem WordLine.notMem_text (l : WordLine) {c : UInt8} (hc : EndsText c) : c ∉ l.text := by
  simp only [WordLine.text, List.mem_append, List.mem_flatMap, not_or, not_exists, not_and]
  refine ⟨fun h => (l.command_plain c h).2 hc, fun w hw => ?_, fun h => ?_⟩
  · refine w.notMem_text (plain_of_endsText hc) ?_
    rintro rfl
    exact (plain_of_mem_axisLetters w.letter_mem).2.2.2.2.2 hc
  · obtain ⟨hspace, hzero⟩ := l.trailing_space c h
    rcases hc with rfl | rfl | rfl
    · exact hzero rfl
    · exact absurd hspace (by decide)
    · exact absurd hspace (by decide)

/-! ## What is read -/

section

variable {R : Type*} [Field R]

/-- What is read for a number in front of `next`. -/
def readBefore (l : Literal) : Option GCodeWord → R
  | none => l.value
  | some e =>
      if e.spaces = 0 ∧ e.letter = 69 then signed l.sign (e.number.asExponent l.magnitude)
      else l.value

def numberRead (c : UInt8) : List GCodeWord → Option R
  | [] => none
  | w :: ws => if w.letter = c then some (readBefore w.number ws.head?) else numberRead c ws

def numberWritten (c : UInt8) : List GCodeWord → Option R
  | [] => none
  | w :: ws => if w.letter = c then some w.number.value else numberWritten c ws

variable [CharZero R]

/-- A number in front of something that does not belong to it. -/
theorem myAtof_literal (l : Literal) {z : UInt8} (hdigit : isDigit z = false) (hpoint : z ≠ 46)
    (hmark : z ||| 32 ≠ 101) (s : List UInt8) :
    (myAtof (l.text ++ z :: s) : Option R) = some l.value := by
  have hread : (myStrtod ([] ++ (l.text ++ z :: s)) : Option (R × List UInt8)) = _ :=
    myStrtod_text (by simp) l hdigit hpoint s
  rw [List.nil_append, readExponent_none hmark, Option.map_some] at hread
  rw [myAtof, hread]
  rfl

/-- A number in front of an `E` with a literal behind it. -/
theorem myAtof_marked (l e : Literal) {z : UInt8} (hdigit : isDigit z = false) (s : List UInt8) :
    (myAtof (l.text ++ 69 :: (e.text ++ z :: s)) : Option R) =
      some (signed l.sign (e.asExponent l.magnitude)) := by
  have hread : (myStrtod ([] ++ (l.text ++ 69 :: (e.text ++ z :: s))) :
      Option (R × List UInt8)) = _ :=
    myStrtod_text (by simp) l rfl (by decide) (e.text ++ z :: s)
  obtain ⟨r, hr, hvalue⟩ := Option.map_eq_some_iff.mp
    (readExponent_literal e (l.text ++ 69 :: (e.text ++ z :: s)) (l.magnitude : R) hdigit s)
  rw [List.nil_append, hr, Option.map_some, hvalue] at hread
  rw [myAtof, hread]
  rfl

omit [CharZero R] in
/-- White space and the terminator do not belong to a number. -/
theorem blank_behind {trailing : List UInt8} (htrailing : ∀ c ∈ trailing, myIsspace c = true)
    (s : List UInt8) :
    ∃ z u, trailing ++ 0 :: s = z :: u ∧ isDigit z = false ∧ z ≠ 46 ∧ z ||| 32 ≠ 101 := by
  have hblank : ∀ z, myIsspace z = true → isDigit z = false ∧ z ≠ 46 ∧ z ||| 32 ≠ 101 := by
    intro z hz
    simp only [myIsspace, Bool.or_eq_true, beq_iff_eq] at hz
    rcases hz with (((rfl | rfl) | rfl) | rfl) | rfl <;> decide
  cases trailing with
  | nil => exact ⟨0, s, rfl, hblank 0 rfl⟩
  | cons z t => exact ⟨z, _, rfl, hblank z (htrailing z List.mem_cons_self)⟩

omit [CharZero R] in
/-- What follows a word begins with a space, a letter or the end. -/
theorem word_behind (ws : List GCodeWord) {trailing : List UInt8}
    (htrailing : ∀ c ∈ trailing, myIsspace c = true) (s : List UInt8) :
    ∃ z u, ws.flatMap GCodeWord.text ++ (trailing ++ 0 :: s) = z :: u ∧ isDigit z = false := by
  cases ws with
  | nil =>
      obtain ⟨z, u, hbehind, hdigit, -⟩ := blank_behind htrailing s
      exact ⟨z, u, hbehind, hdigit⟩
  | cons w ws =>
      rw [List.flatMap_cons, GCodeWord.text]
      cases w.spaces with
      | zero => exact ⟨w.letter, _, rfl, (plain_of_mem_axisLetters w.letter_mem).2.2.2.1⟩
      | succ n => exact ⟨32, _, rfl, rfl⟩

/-- What is behind a word does not belong to its number, unless it is the letter `E`. -/
theorem myAtof_word (l : Literal) (ws : List GCodeWord) {trailing : List UInt8}
    (htrailing : ∀ c ∈ trailing, myIsspace c = true) (s : List UInt8) :
    (myAtof (l.text ++ (ws.flatMap GCodeWord.text ++ (trailing ++ 0 :: s))) : Option R) =
      some (readBefore l ws.head?) := by
  cases ws with
  | nil =>
      obtain ⟨z, u, hbehind, hdigit, hpoint, hmark⟩ := blank_behind htrailing s
      rw [List.flatMap_nil, List.nil_append, hbehind]
      exact myAtof_literal l hdigit hpoint hmark u
  | cons e ws =>
      rw [List.flatMap_cons, List.head?_cons, readBefore, GCodeWord.text, List.append_assoc,
        List.append_assoc]
      cases hspaces : e.spaces with
      | succ n =>
          rw [if_neg (by simp), List.replicate_succ, List.cons_append]
          exact myAtof_literal l rfl (by decide) (by decide) _
      | zero =>
          rw [List.replicate_zero, List.nil_append, List.cons_append]
          obtain ⟨z, u, hbehind, hdigit⟩ := word_behind ws htrailing s
          by_cases hletter : e.letter = 69
          · rw [if_pos ⟨rfl, hletter⟩, hletter, hbehind]
            exact myAtof_marked l e.number hdigit u
          · have hall : ∀ c ∈ axisLetters, c ≠ 69 → c ||| 32 ≠ 101 := by
              simp [axisLetters, or_32_eq_iff]
            have hplain := plain_of_mem_axisLetters e.letter_mem
            rw [if_neg fun h => hletter h.2]
            exact myAtof_literal l hplain.2.2.2.1 hplain.2.2.1
              (hall e.letter e.letter_mem hletter) _

omit [CharZero R] in
theorem seekFP_skip {c : UInt8} {t : List UInt8} (hzero : 0 ∉ t) (hc : c ∉ t) (s : List UInt8) :
    seekFP (R := R) (t ++ s) c = seekFP s c := by
  rw [seekFP, seekFP, strchr_skip hzero hc]

theorem seekFP_words {c : UInt8} (hc : c ∈ axisLetters) (ws : List GCodeWord)
    {trailing : List UInt8} (htrailing : ∀ c ∈ trailing, myIsspace c = true ∧ c ≠ 0)
    (s : List UInt8) :
    seekFP (R := R) (ws.flatMap GCodeWord.text ++ (trailing ++ 0 :: s)) c =
      some (numberRead c ws) := by
  have hplain := plain_of_mem_axisLetters hc
  have hzero : ∀ w : GCodeWord, 0 ∉ w.text := fun w => by
    refine w.notMem_text (plain_of_endsText (Or.inl rfl)) ?_
    exact (plain_of_mem_axisLetters w.letter_mem).2.2.2.2.1.symm
  induction ws with
  | nil =>
      have hskip : c ∉ trailing := by
        intro h
        have hspace := (htrailing c h).1
        have hall : ∀ c ∈ axisLetters, myIsspace c = false := by simp [axisLetters, myIsspace]
        rw [hall c hc] at hspace
        exact Bool.noConfusion hspace
      rw [List.flatMap_nil, List.nil_append, seekFP_skip (fun h => (htrailing 0 h).2 rfl) hskip]
      simp [seekFP, strchr, hplain.2.2.2.2.1.symm, numberRead]
  | cons w ws ih =>
      rw [List.flatMap_cons, List.append_assoc, numberRead]
      by_cases hletter : w.letter = c
      · have hspaces : c ∉ List.replicate w.spaces 32 :=
          fun h => hplain.1 (List.eq_of_mem_replicate h)
        have hspaces' : (0 : UInt8) ∉ List.replicate w.spaces 32 :=
          fun h => absurd (List.eq_of_mem_replicate h) (by decide)
        rw [if_pos hletter, GCodeWord.text, List.append_assoc, seekFP_skip hspaces' hspaces,
          hletter, List.cons_append, seekFP, strchr, if_pos rfl]
        have hread := myAtof_word (R := R) w.number ws (fun c h => (htrailing c h).1) s
        simp [hread]
      · rw [if_neg hletter, seekFP_skip (hzero w) (w.notMem_text
          ⟨hplain.1, hplain.2.1, hplain.2.2.1, hplain.2.2.2.1⟩ (Ne.symm hletter)), ih]

/-! ## What is read and what is written -/

/-- No exponent is read behind `w`, or one that changes nothing. -/
def Apart (R : Type*) [Field R] (w e : GCodeWord) : Prop :=
  e.letter = 69 → e.spaces = 0 → (w.number.value : R) = 0 ∨ e.number.Neutral

theorem readBefore_eq_iff (w : GCodeWord) (next : Option GCodeWord) :
    (readBefore w.number next : R) = w.number.value ↔ ∀ e ∈ next, Apart R w e := by
  cases next with
  | none => simp [readBefore]
  | some e =>
      simp only [Option.mem_some_iff, forall_eq', Apart, readBefore]
      split
      · rename_i hmark
        rw [w.number.value_eq_zero_iff, ← Literal.asExponent_eq_iff]
        simp only [hmark.1, hmark.2, true_imp_iff]
        exact signed_inj w.number.sign
      · rename_i hmark
        simp only [true_iff]
        exact fun hletter hspaces => absurd ⟨hspaces, hletter⟩ hmark

omit [CharZero R] in
theorem numberRead_isSome (c : UInt8) (ws : List GCodeWord) :
    (numberRead c ws : Option R).isSome = (numberWritten c ws : Option R).isSome := by
  induction ws with
  | nil => rfl
  | cons w ws ih =>
      rw [numberRead, numberWritten]
      split
      · rfl
      · exact ih

omit [CharZero R] in
theorem numberWritten_eq_none_iff (c : UInt8) (ws : List GCodeWord) :
    (numberWritten c ws : Option R) = none ↔ ∀ w ∈ ws, w.letter ≠ c := by
  induction ws with
  | nil => simp [numberWritten]
  | cons w ws ih =>
      rw [numberWritten, List.forall_mem_cons]
      by_cases hletter : w.letter = c
      · simp [hletter]
      · simp [hletter, ih]

/-- The number of a letter is read as it is written if nothing that changes it stands behind. -/
theorem numberRead_eq_iff {c : UInt8} {ws : List GCodeWord}
    (hnodup : (ws.map GCodeWord.letter).Nodup) :
    (numberRead c ws : Option R) = numberWritten c ws ↔
      ws.IsChain fun w e => w.letter = c → Apart R w e := by
  induction ws with
  | nil => simp [numberRead, numberWritten]
  | cons w ws ih =>
      rw [List.map_cons, List.nodup_cons] at hnodup
      rw [numberRead, numberWritten, List.isChain_cons, ← ih hnodup.2]
      by_cases hletter : w.letter = c
      · -- the letter does not occur again
        have hrest : (numberRead c ws : Option R) = numberWritten c ws := by
          have hnone : (numberWritten c ws : Option R) = none := by
            rw [numberWritten_eq_none_iff]
            rintro v hv rfl
            exact hnodup.1 (hletter ▸ List.mem_map_of_mem hv)
          rw [hnone, ← Option.not_isSome_iff_eq_none, numberRead_isSome, hnone]
          simp
        rw [if_pos hletter, if_pos hletter, Option.some.injEq, readBefore_eq_iff]
        simp [hletter, hrest]
      · simp [hletter]

omit [CharZero R] in
/-- Two sets of words are the same if each word is, but `A` does not matter where there is a
`Z`. -/
theorem wordsOf_eq_iff {speed : R} {f x y e a z f' x' y' e' a' z' : Option R}
    (hf : f.isSome = f'.isSome) (hx : x.isSome = x'.isSome) (hy : y.isSome = y'.isSome)
    (he : e.isSome = e'.isSome) (ha : a.isSome = a'.isSome) (hz : z.isSome = z'.isSome)
    (h60 : (60 : R) ≠ 0) :
    wordsOf speed f x y e a z = wordsOf speed f' x' y' e' a' z' ↔
      f = f' ∧ x = x' ∧ y = y' ∧ e = e' ∧ (z' = none → a = a') ∧ z = z' := by
  have hspeed : f.elim speed (· / 60) = f'.elim speed (· / 60) ↔ f = f' := by
    cases f <;> cases f' <;> simp_all [div_left_inj']
  have hvalue : ∀ {v v' : Option R}, v.isSome = v'.isSome → (v.getD 0 = v'.getD 0 ↔ v = v') := by
    intro v v' hv
    cases v <;> cases v' <;> simp_all
  have hlast : z.getD (a.getD 0) = z'.getD (a'.getD 0) ↔ (z' = none → a = a') ∧ z = z' := by
    have := hvalue ha
    cases z <;> cases z' <;> simp_all
  rw [Words.ext_iff]
  simp only [wordsOf, hspeed, hx, hy, he, ha, hz, true_and]
  rw [← hvalue hx, ← hvalue hy, ← hvalue he, ← hlast]
  refine and_congr_right fun _ => ⟨fun h => ?_, ?_⟩
  · exact ⟨congrFun h 0, congrFun h 1, congrFun h 2, congrFun h 3⟩
  · rintro ⟨h₀, h₁, h₂, h₃⟩
    rw [h₀, h₁, h₂, h₃]

/-- What a line of words says; the last axis has the word `Z`, or else the word `A`. -/
def WordLine.written (l : WordLine) (speed : R) : Words R :=
  wordsOf speed (numberWritten 70 l.words) (numberWritten 88 l.words) (numberWritten 89 l.words)
    (numberWritten 69 l.words) (numberWritten 65 l.words) (numberWritten 90 l.words)

theorem readAxis_wordLine (l : WordLine) {z : UInt8} (hz : EndsText z) (s : List UInt8)
    (g : StepGCode R) :
    (readAxis { g with lineBuffer := trim (l.text ++ z :: s) }).map StepGCode.words =
      some (wordsOf g.speed (numberRead 70 l.words) (numberRead 88 l.words) (numberRead 89 l.words)
        (numberRead 69 l.words) (numberRead 65 l.words) (numberRead 90 l.words)) := by
  obtain ⟨s', -, htrim, -⟩ := trim_text (fun c hc => l.notMem_text hc) hz s
  have hseek : ∀ c ∈ axisLetters,
      seekFP (R := R) (trim (l.text ++ z :: s)) c = some (numberRead c l.words) := by
    intro c hc
    have hcommand : c ∉ l.command := fun h => (l.command_plain c h).1 hc
    have hzero : 0 ∉ l.command := fun h => (l.command_plain 0 h).2 (Or.inl rfl)
    rw [htrim, WordLine.text, List.append_assoc, List.append_assoc, seekFP_skip hzero hcommand]
    exact seekFP_words hc l.words l.trailing_space s'
  simp only [axisLetters, List.forall_mem_cons] at hseek
  obtain ⟨hf, hx, hy, he, ha, hz', -⟩ := hseek
  rw [readAxis_words]
  simp only [hf, hx, hy, he, ha, hz', Option.bind_some, Option.map_some]

/-- A line of words is read as it is written exactly if no number is directly followed by the
letter `E`, unless the number or what stands behind the `E` is 0, or the number is that of an `A`
in a line with a `Z`. -/
theorem readAxis_iff (l : WordLine) {z : UInt8} (hz : EndsText z) (s : List UInt8)
    (g : StepGCode R) :
    (readAxis { g with lineBuffer := trim (l.text ++ z :: s) }).map StepGCode.words =
        some (l.written g.speed) ↔
      l.words.IsChain fun w e =>
        (w.letter = 65 → ∀ v ∈ l.words, v.letter ≠ 90) → Apart R w e := by
  rw [readAxis_wordLine l hz s g, Option.some.injEq, WordLine.written,
    wordsOf_eq_iff (numberRead_isSome _ _) (numberRead_isSome _ _) (numberRead_isSome _ _)
      (numberRead_isSome _ _) (numberRead_isSome _ _) (numberRead_isSome _ _) (by norm_num)]
  simp only [numberRead_eq_iff l.nodup, numberWritten_eq_none_iff]
  simp only [List.isChain_iff_forall_rel_of_append_cons_cons]
  constructor
  · rintro ⟨hf, hx, hy, he, ha, hz⟩ w e pre post hwords hneed
    have hletter := w.letter_mem
    simp only [axisLetters, List.mem_cons, List.not_mem_nil, or_false] at hletter
    rcases hletter with h | h | h | h | h | h
    · exact hf hwords h
    · exact hx hwords h
    · exact hy hwords h
    · exact he hwords h
    · exact ha (hneed h) hwords h
    · exact hz hwords h
  · intro h
    have hother : ∀ c : UInt8, c ≠ 65 → ∀ ⦃w e pre post⦄,
        l.words = pre ++ w :: e :: post → w.letter = c → Apart R w e :=
      fun c hc w e pre post hwords hletter =>
        h hwords fun hA => absurd (hletter.symm.trans hA) hc
    exact ⟨hother 70 (by decide), hother 88 (by decide), hother 89 (by decide),
      hother 69 (by decide), fun hnone _ _ _ _ hwords _ => h hwords fun _ => hnone,
      hother 90 (by decide)⟩

end

def digitLiteral (ds : List UInt8) (hds : ∀ c ∈ ds, isDigit c = true) (hne : ds ≠ []) :
    Literal where
  sign := none
  int := ds
  frac := none
  sign_eq := by simp
  int_digits := hds
  frac_digits := by simp
  digits_ne := by simpa using hne

/-- `G1 X10` and `E6`, with `n` spaces between them. -/
def extrudeLine (n : ℕ) : WordLine where
  command := [71, 49]
  words :=
    [⟨1, 88, digitLiteral [49, 48] (by simp [isDigit]) (by simp), by decide⟩,
      ⟨n, 69, digitLiteral [54] (by simp [isDigit]) (by simp), by decide⟩]
  trailing := [10]
  command_plain := by simp [axisLetters, EndsText]
  trailing_space := by simp [myIsspace]
  nodup := by simp

/-- `G1 X10 E6`. -/
theorem readAxis_iff_extrudeLine :
    (readAxis { startedWith (R := ℚ) [] with
        lineBuffer := trim ((extrudeLine 1).text ++ 0 :: []) }).map StepGCode.words =
      some ((extrudeLine 1).written 10) :=
  (readAxis_iff (extrudeLine 1) (Or.inl rfl) [] (startedWith [])).mpr
    (by simp [extrudeLine, Apart])

/-- `G1 X10E6` moves to 10000000. -/
theorem extrudeLine_misread :
    (readAxis { startedWith (R := ℚ) [] with
        lineBuffer := trim ((extrudeLine 0).text ++ 0 :: []) }).map StepGCode.words ≠
      some ((extrudeLine 0).written 10) := by
  intro h
  have hsame := congrArg (Option.map fun w => w.value 0) h
  have hmove : ((readAxis { startedWith (R := ℚ) [] with
      lineBuffer := trim ((extrudeLine 0).text ++ 0 :: []) }).map StepGCode.words).map
        (fun w => w.value 0) = some 10000000 := by decide +kernel
  have hwritten : ((extrudeLine 0).written (10 : ℚ)).value 0 = 10 := by decide +kernel
  rw [hmove, Option.map_some, hwritten] at hsame
  exact absurd hsame (by norm_num)

end TdPrinter
