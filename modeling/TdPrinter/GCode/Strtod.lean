import Mathlib.Data.List.TakeWhile
import TdPrinter.Foundation.Decimal
import TdPrinter.Foundation.Scan

/-!
# Reading a number

`my_strtod` skips white space and reads a decimal with an optional sign, fraction and
exponent.  Its loops are those of `Foundation.Scan` and `Foundation.Decimal`; a pointer is
the list of what lies behind it, and there is no result where the pointer leaves the
memory.

`long double` arithmetic is exact here, and the constant `0.1` is a tenth.

To `my_isspace` the terminator of a string is white space, so the first loop does not stop
there.  All the others do (`myAtof_local`).
-/

namespace TdPrinter

/-- `my_isspace`. -/
def myIsspace (c : UInt8) : Bool := c == 13 || c == 10 || c == 32 || c == 0 || c == 9

/-- `if(*p == '-' || *p == '+') sign = *p++;`. -/
def readSign : List UInt8 → Option (Option UInt8 × List UInt8)
  | [] => none
  | c :: p => if c = 45 ∨ c = 43 then some (some c, p) else some (none, c :: p)

section

variable {R : Type*} [Field R]

def readInteger (s : List UInt8) : Option (R × List UInt8) :=
  scanWhile isDigit (fun v c => v * 10 + (digit c : R)) 0 s

/-- The point and the digits behind it; `factor` is the weight of the last digit. -/
def readFraction (value : R) : List UInt8 → Option (R × List UInt8)
  | [] => none
  | c :: p =>
      if c = 46 then
        (scanWhile isDigit
          (fun (a : R × R) c => (a.1 + digit c * (a.2 * (1 / 10)), a.2 * (1 / 10)))
          (value, 1) p).map fun r => (r.1.1, r.2)
      else some (value, c :: p)

/-- The digits of the exponent, and the power; `expo` is an `unsigned int`. -/
def readPower (value factor : R) (s : List UInt8) : Option (R × List UInt8) :=
  (scanWhile isDigit (fun n c => (10 * n + digit c) % 2 ^ 32) 0 s).bind fun r =>
    (powerLoop 32 value factor r.1).map fun v => (v, r.2)

/-- `if ( (*p | 32) == 'e' )` to `done`, in a number that begins at `s`. -/
def readExponent (s : List UInt8) (value : R) : List UInt8 → Option (R × List UInt8)
  | [] => none
  | c :: p =>
      if c ||| 32 = 101 then
        match p with
        | [] => none
        | d :: q =>
            if d = 45 then readPower value (1 / 10) q
            else if d = 43 then readPower value 10 q
            else if isDigit d then readPower value 10 (d :: q)
            else some (0, s)
      else some (value, c :: p)

/-- `my_strtod`: the number, and `*endptr`. -/
def myStrtod (s : List UInt8) : Option (R × List UInt8) :=
  (scanWhile myIsspace (fun u _ => u) () s).bind fun space =>
    (readSign space.2).bind fun sign =>
      (readInteger sign.2).bind fun int =>
        (readFraction (R := R) int.1 int.2).bind fun frac =>
          (readExponent s frac.1 frac.2).map fun r => (signed sign.1 r.1, r.2)

/-- `my_atof`. -/
def myAtof (s : List UInt8) : Option R := (myStrtod s).map Prod.fst

end

/-! ## Literals -/

theorem Literal.notSpace (l : Literal) : ∀ c ∈ l.text, myIsspace c = false := by
  have hdigit : ∀ c : UInt8, isDigit c = true → myIsspace c = false := by
    intro c hc
    rw [isDigit_iff] at hc
    by_contra hspace
    simp only [myIsspace, Bool.or_eq_false_iff, not_and_or, beq_eq_false_iff_ne, ne_eq,
      not_not] at hspace
    rcases hspace with ((((rfl | rfl) | rfl) | rfl) | rfl) <;> simp at hc
  intro c hc
  simp only [Literal.text, List.mem_append, Option.mem_toList] at hc
  rcases hc with hsign | hint | hfrac
  · rcases l.sign_eq c hsign with rfl | rfl <;> rfl
  · exact hdigit c (l.int_digits c hint)
  · cases hl : l.frac with
    | none => simp [hl] at hfrac
    | some ds =>
        simp only [hl, Option.map_some, Option.getD_some, List.mem_cons] at hfrac
        rcases hfrac with rfl | hfrac
        · rfl
        · exact hdigit c (l.frac_digits c (by rwa [hl]))

def Literal.magnitude {R : Type*} [Field R] (l : Literal) : R :=
  natOf l.int + natOf (l.frac.getD []) / 10 ^ (l.frac.getD []).length

theorem readSign_text {sign : Option UInt8} (hsign : ∀ c ∈ sign, c = 43 ∨ c = 45) {c : UInt8}
    (hplus : c ≠ 43) (hminus : c ≠ 45) (s : List UInt8) :
    readSign (sign.toList ++ c :: s) = some (sign, c :: s) := by
  cases sign with
  | none => simp [readSign, hplus, hminus]
  | some d =>
      have hd : d = 45 ∨ d = 43 := (hsign d rfl).symm
      simp [readSign, hd]

section

variable {R : Type*} [Field R] [CharZero R]

omit [CharZero R] in
theorem readInteger_text {ds : List UInt8} (hds : ∀ c ∈ ds, isDigit c = true) {z : UInt8}
    (hz : isDigit z = false) (s : List UInt8) :
    (readInteger (ds ++ z :: s) : Option (R × List UInt8)) = some ((natOf ds : R), z :: s) := by
  rw [readInteger, scanWhile_text hds hz, foldl_horner, zero_mul, zero_add]

theorem readFraction_text (value : R) {frac : Option (List UInt8)}
    (hfrac : ∀ c ∈ frac.getD [], isDigit c = true) {z : UInt8} (hz : isDigit z = false)
    (hpoint : z ≠ 46) (s : List UInt8) :
    readFraction value ((frac.map (46 :: ·)).getD [] ++ z :: s) =
      some (value + natOf (frac.getD []) / 10 ^ (frac.getD []).length, z :: s) := by
  cases frac with
  | none => simp [readFraction, hpoint, natOf]
  | some ds =>
      simp only [Option.map_some, Option.getD_some, List.cons_append, readFraction, if_true]
        at hfrac ⊢
      rw [scanWhile_text hfrac hz, foldl_fraction, Option.map_some]

/-- Up to the exponent a literal is read as what it denotes. -/
theorem myStrtod_text {ws : List UInt8} (hws : ∀ c ∈ ws, myIsspace c = true) (l : Literal)
    {z : UInt8} (hz : isDigit z = false) (hpoint : z ≠ 46) (s : List UInt8) :
    (myStrtod (ws ++ (l.text ++ z :: s)) : Option (R × List UInt8)) =
      (readExponent (ws ++ (l.text ++ z :: s)) l.magnitude (z :: s)).map
        fun r => (signed l.sign r.1, r.2) := by
  -- the first character behind the white space, and the one behind the sign
  obtain ⟨c, t, htext⟩ : ∃ c t, l.text = c :: t := by
    refine List.exists_cons_of_ne_nil fun hnil => l.digits_ne ?_
    simp only [Literal.text, List.append_eq_nil_iff] at hnil
    obtain ⟨-, hint, hfrac⟩ := hnil
    cases hl : l.frac with
    | none => simp [hint]
    | some ds => simp [hl] at hfrac
  have hc : myIsspace c = false := l.notSpace c (by simp [htext])
  obtain ⟨d, q, hnumber, hplus, hminus⟩ : ∃ d q,
      l.int ++ ((l.frac.map (46 :: ·)).getD [] ++ z :: s) = d :: q ∧ d ≠ 43 ∧ d ≠ 45 := by
    cases hint : l.int with
    | cons d ds =>
        have hd : isDigit d = true := l.int_digits d (by simp [hint])
        rw [isDigit_iff] at hd
        refine ⟨d, _, rfl, ?_, ?_⟩ <;> rintro rfl <;> simp at hd
    | nil =>
        cases hfrac : l.frac with
        | none => exact absurd (by simp [hint, hfrac]) l.digits_ne
        | some ds => exact ⟨46, _, rfl, by decide, by decide⟩
  obtain ⟨e, w, hrest, he⟩ : ∃ e w,
      (l.frac.map (46 :: ·)).getD [] ++ z :: s = e :: w ∧ isDigit e = false := by
    cases l.frac with
    | none => exact ⟨z, s, rfl, hz⟩
    | some ds => exact ⟨46, _, rfl, rfl⟩
  have hstart : l.text ++ z :: s = c :: (t ++ z :: s) := by rw [htext, List.cons_append]
  have hsign : readSign (c :: (t ++ z :: s)) = some (l.sign, d :: q) := by
    rw [← hstart, Literal.text, List.append_assoc, List.append_assoc, hnumber]
    exact readSign_text l.sign_eq hplus hminus q
  have hint : (readInteger (d :: q) : Option (R × List UInt8)) =
      some ((natOf l.int : R), e :: w) := by
    rw [← hnumber, hrest]
    exact readInteger_text l.int_digits he w
  have hfrac : readFraction (natOf l.int : R) (e :: w) = some (l.magnitude, z :: s) := by
    rw [← hrest]
    exact readFraction_text _ l.frac_digits hz hpoint s
  rw [myStrtod, hstart, scanWhile_text hws hc, Option.bind_some, hsign, Option.bind_some, hint,
    Option.bind_some, hfrac, Option.bind_some]

/-! ## Exponents -/

/-- What a digit of the exponent stands for. -/
def powerBase (R : Type*) [Field R] (sign : Option UInt8) : R :=
  if sign = some 45 then 1 / 10 else 10

omit [CharZero R] in
theorem readPower_text (value factor : R) {ds : List UInt8} (hds : ∀ c ∈ ds, isDigit c = true)
    {z : UInt8} (hz : isDigit z = false) (s : List UInt8) :
    readPower value factor (ds ++ z :: s) =
      some (value * factor ^ (natOf ds % 2 ^ 32), z :: s) := by
  have hlt : natOf ds % 2 ^ 32 < 2 ^ 32 := Nat.mod_lt _ (by decide)
  rw [readPower, scanWhile_text hds hz, Option.bind_some, foldl_mod,
    powerLoop_eq (by decide) hlt, Option.map_some]

omit [CharZero R] in
theorem readExponent_none {c : UInt8} (hc : c ||| 32 ≠ 101) (start : List UInt8) (value : R)
    (s : List UInt8) : readExponent start value (c :: s) = some (value, c :: s) := by
  simp [readExponent, hc]

omit [CharZero R] in
/-- An exponent, whatever else it was meant to be; its digits are counted modulo `2 ^ 32`. -/
theorem readExponent_text {c : UInt8} (hc : c ||| 32 = 101) {sign : Option UInt8}
    (hsign : ∀ c ∈ sign, c = 43 ∨ c = 45) {ds : List UInt8} (hds : ∀ c ∈ ds, isDigit c = true)
    (hne : sign = none → ds ≠ []) {z : UInt8} (hz : isDigit z = false) (start : List UInt8)
    (value : R) (s : List UInt8) :
    readExponent start value (c :: (sign.toList ++ (ds ++ z :: s))) =
      some (value * powerBase R sign ^ (natOf ds % 2 ^ 32), z :: s) := by
  cases sign with
  | some d =>
      rcases hsign d rfl with rfl | rfl
      · simp [readExponent, hc, readPower_text _ _ hds hz, powerBase]
      · simp [readExponent, hc, readPower_text _ _ hds hz, powerBase]
  | none =>
      obtain ⟨d, ds', rfl⟩ := List.exists_cons_of_ne_nil (hne rfl)
      have hd : isDigit d = true := hds d List.mem_cons_self
      have hplus : d ≠ 43 := by
        rintro rfl
        simp [isDigit_iff] at hd
      have hminus : d ≠ 45 := by
        rintro rfl
        simp [isDigit_iff] at hd
      have hpower := readPower_text value 10 hds hz s
      rw [List.cons_append] at hpower
      simp [readExponent, hc, hd, hplus, hminus, hpower, powerBase]

omit [CharZero R] in
/-- An `e` without a number behind it makes the result 0. -/
theorem readExponent_refused {c d : UInt8} (hc : c ||| 32 = 101) (hplus : d ≠ 43)
    (hminus : d ≠ 45) (hd : isDigit d = false) (start : List UInt8) (value : R) (s : List UInt8) :
    readExponent start value (c :: d :: s) = some (0, start) := by
  simp [readExponent, hc, hplus, hminus, hd]

end

theorem or_32_eq_iff (c : UInt8) : c ||| 32 = 101 ↔ c = 101 ∨ c = 69 := by
  have hall : ∀ n < 256,
      UInt8.ofNat n ||| 32 = 101 ↔ UInt8.ofNat n = 101 ∨ UInt8.ofNat n = 69 := by
    decide +kernel
  have hbyte := hall c.toNat c.toNat_lt
  rwa [UInt8.ofNat_toNat] at hbyte

/-! ## The grammar of my_strtod -/

structure Exponent where
  mark : UInt8
  sign : Option UInt8
  digits : List UInt8
  mark_eq : mark = 101 ∨ mark = 69
  sign_eq : ∀ c ∈ sign, c = 43 ∨ c = 45
  digits_digits : ∀ c ∈ digits, isDigit c = true
  digits_ne : digits ≠ []
  digits_lt : natOf digits < 2 ^ 32

def Exponent.text (e : Exponent) : List UInt8 := e.mark :: (e.sign.toList ++ e.digits)

section

variable {R : Type*} [Field R] [CharZero R]

omit [CharZero R] in
/-- The power of ten that an exponent denotes. -/
def Exponent.value (e : Exponent) : R := 10 ^ signed e.sign (natOf e.digits : ℤ)

omit [CharZero R] in
theorem Exponent.value_eq (e : Exponent) :
    (e.value : R) = powerBase R e.sign ^ (natOf e.digits % 2 ^ 32) := by
  rw [Exponent.value, signed, powerBase, Nat.mod_eq_of_lt e.digits_lt]
  split
  · rw [zpow_neg, zpow_natCast, one_div, inv_pow]
  · rw [zpow_natCast]

omit [CharZero R] in
theorem signed_mul (sign : Option UInt8) (x y : R) : signed sign (x * y) = signed sign x * y := by
  unfold signed
  split
  · exact neg_mul_eq_neg_mul x y
  · rfl

/-- `my_strtod` reads a decimal exactly, with or without an exponent, and leaves the pointer
behind it. -/
theorem strtod_exact {ws : List UInt8} (hws : ∀ c ∈ ws, myIsspace c = true) (l : Literal)
    (expo : Option Exponent) {z : UInt8} (hdigit : isDigit z = false) (hpoint : z ≠ 46)
    (hmark : z ≠ 101 ∧ z ≠ 69) (s : List UInt8) :
    (myStrtod (ws ++ (l.text ++ ((expo.map Exponent.text).getD [] ++ z :: s))) :
        Option (R × List UInt8)) =
      some (l.value * (expo.map Exponent.value).getD 1, z :: s) := by
  cases expo with
  | none =>
      have hz : z ||| 32 ≠ 101 := by
        rw [ne_eq, or_32_eq_iff, not_or]
        exact hmark
      have hread := myStrtod_text (R := R) hws l hdigit hpoint s
      rw [readExponent_none hz, Option.map_some] at hread
      rw [Option.map_none, Option.getD_none, List.nil_append, hread]
      simp [Literal.value, Literal.magnitude]
  | some e =>
      have hdigit' : isDigit e.mark = false := by
        rcases e.mark_eq with h | h <;> rw [h] <;> rfl
      have hpoint' : e.mark ≠ 46 := by
        rcases e.mark_eq with h | h <;> rw [h] <;> decide
      have htail : e.text ++ z :: s = e.mark :: (e.sign.toList ++ (e.digits ++ z :: s)) := by
        simp [Exponent.text]
      rw [Option.map_some, Option.getD_some, htail, myStrtod_text hws l hdigit' hpoint',
        readExponent_text ((or_32_eq_iff _).mpr e.mark_eq) e.sign_eq e.digits_digits
          (fun _ => e.digits_ne) hdigit, Option.map_some, signed_mul, ← e.value_eq]
      rfl

end

/-! ## How far a number is read -/

section

variable {R : Type*} [Field R]

theorem stopsAt_readSign : StopsAt 0 readSign := by
  intro t
  cases t with
  | nil => exact ⟨none, [], fun r => rfl⟩
  | cons c t =>
      by_cases hc : c = 45 ∨ c = 43
      · exact ⟨some c, t, fun r => by simp [readSign, hc]⟩
      · exact ⟨none, c :: t, fun r => by simp [readSign, hc]⟩

theorem stopsAt_readInteger : StopsAt 0 (readInteger (R := R)) :=
  stopsAt_scanWhile rfl 0

theorem stopsAt_readFraction (value : R) : StopsAt 0 (readFraction value) := by
  intro t
  cases t with
  | nil => exact ⟨value, [], fun r => by simp [readFraction]⟩
  | cons c t =>
      by_cases hc : c = 46
      · have hscan : StopsAt 0 (scanWhile isDigit
            (fun (a : R × R) c => (a.1 + digit c * (a.2 * (1 / 10)), a.2 * (1 / 10))) (value, 1)) :=
          stopsAt_scanWhile rfl _
        obtain ⟨x, u, hread⟩ := hscan.map Prod.fst t
        exact ⟨x, u, fun r => by simpa [readFraction, hc] using hread r⟩
      · exact ⟨value, c :: t, fun r => by simp [readFraction, hc]⟩

theorem stopsAt_readPower (value factor : R) : StopsAt 0 (readPower value factor) := by
  intro t
  have hlt : natOf (t.takeWhile isDigit) % 2 ^ 32 < 2 ^ 32 := Nat.mod_lt _ (by decide)
  refine ⟨value * factor ^ (natOf (t.takeWhile isDigit) % 2 ^ 32), t.dropWhile isDigit,
    fun r => ?_⟩
  rw [readPower, scanWhile_of_stop rfl, Option.bind_some, foldl_mod,
    powerLoop_eq (by decide) hlt, Option.map_some]

/-- What the exponent makes of the number depends on the text in front of the terminator. -/
theorem readExponent_local (value : R) (t : List UInt8) :
    ∃ v, ∀ start r, (readExponent start value (t ++ 0 :: r)).map Prod.fst = some v := by
  cases t with
  | nil => exact ⟨value, fun start r => by simp [readExponent]⟩
  | cons c t =>
      by_cases hc : c ||| 32 = 101
      · cases t with
        | nil =>
            refine ⟨0, fun start r => ?_⟩
            rw [List.cons_append, List.nil_append,
              readExponent_refused hc (by decide) (by decide) rfl, Option.map_some]
        | cons d t =>
            by_cases hminus : d = 45
            · obtain ⟨v, u, hread⟩ := stopsAt_readPower value (1 / 10) t
              exact ⟨v, fun start r => by simp [readExponent, hc, hminus, -one_div, hread]⟩
            · by_cases hplus : d = 43
              · obtain ⟨v, u, hread⟩ := stopsAt_readPower value 10 t
                exact ⟨v, fun start r => by simp [readExponent, hc, hplus, hread]⟩
              · by_cases hd : isDigit d = true
                · obtain ⟨v, u, hread⟩ := stopsAt_readPower value 10 (d :: t)
                  refine ⟨v, fun start r => ?_⟩
                  have hr := hread r
                  rw [List.cons_append] at hr
                  simp [readExponent, hc, hminus, hplus, hd, hr]
                · exact ⟨0, fun start r => by simp [readExponent, hc, hminus, hplus, hd]⟩
      · exact ⟨value, fun start r => by simp [readExponent, hc]⟩

/-- Where the white space ends in front of the terminator, nothing behind it is read. -/
theorem myAtof_local {t : List UInt8} (ht : ∃ c ∈ t, myIsspace c = false) :
    ∃ v : R, ∀ r, myAtof (t ++ 0 :: r) = some v := by
  obtain ⟨ws, c, u, rfl, hws, hc⟩ : ∃ ws c u, t = ws ++ c :: u ∧
      (∀ b ∈ ws, myIsspace b = true) ∧ myIsspace c = false := by
    have hne : t.dropWhile myIsspace ≠ [] := by
      obtain ⟨c, hmem, hc⟩ := ht
      rw [ne_eq, List.dropWhile_eq_nil_iff]
      intro hall
      rw [hall c hmem] at hc
      exact Bool.noConfusion hc
    have hhead := List.head_dropWhile_not _ hne
    obtain ⟨c, u, hcu⟩ := List.exists_cons_of_ne_nil hne
    simp only [hcu, List.head_cons] at hhead
    refine ⟨t.takeWhile myIsspace, c, u, ?_, fun b hb => List.mem_takeWhile_imp hb, hhead⟩
    rw [← hcu, List.takeWhile_append_dropWhile]
  obtain ⟨sign, u₁, hsign⟩ := stopsAt_readSign (c :: u)
  obtain ⟨int, u₂, hint⟩ := stopsAt_readInteger (R := R) u₁
  obtain ⟨frac, u₃, hfrac⟩ := stopsAt_readFraction int u₂
  obtain ⟨v, hexpo⟩ := readExponent_local frac u₃
  refine ⟨signed sign v, fun r => ?_⟩
  have hspace : ws ++ c :: u ++ 0 :: r = ws ++ c :: (u ++ 0 :: r) := by simp
  have hnumber : c :: (u ++ 0 :: r) = c :: u ++ 0 :: r := rfl
  obtain ⟨q, hq⟩ : ∃ q, readExponent (ws ++ c :: (u ++ 0 :: r)) frac (u₃ ++ 0 :: r) = some q ∧
      q.1 = v := Option.map_eq_some_iff.mp (hexpo _ r)
  rw [myAtof, myStrtod, hspace, scanWhile_text hws hc, Option.bind_some, hnumber, hsign,
    Option.bind_some, hint, Option.bind_some, hfrac, Option.bind_some, ← hnumber, hq.1,
    Option.map_some, Option.map_some, hq.2]

theorem myAtof_letter {ws : List UInt8} (hws : ∀ c ∈ ws, myIsspace c = true) (s : List UInt8) :
    (myAtof (ws ++ 81 :: s) : Option R) = some 0 := by
  have hspace : myIsspace 81 = false := rfl
  have hdigit : isDigit 81 = false := rfl
  have hmark : (81 : UInt8) ||| 32 ≠ 101 := by decide
  rw [myAtof, myStrtod, scanWhile_text hws hspace]
  simp [readSign, readInteger, scanWhile_stop hdigit, readFraction, readExponent_none hmark,
    signed]

/-- Where there is nothing but white space the scan leaves the memory. -/
theorem myAtof_eq_none {s : List UInt8} (hs : ∀ c ∈ s, myIsspace c = true) :
    (myAtof s : Option R) = none := by
  rw [myAtof, myStrtod, scanWhile_eq_none hs, Option.bind_none, Option.map_none]

end

/-- `-12.5`. -/
def minusTwelveAndHalf : Literal where
  sign := some 45
  int := [49, 50]
  frac := some [53]
  sign_eq := by simp
  int_digits := by simp [isDigit]
  frac_digits := by simp [isDigit]
  digits_ne := by simp

/-- `e-2`. -/
def minusTwo : Exponent where
  mark := 101
  sign := some 45
  digits := [50]
  mark_eq := Or.inl rfl
  sign_eq := by simp
  digits_digits := by simp [isDigit]
  digits_ne := by simp
  digits_lt := by decide

theorem strtod_exact_minusTwelveAndHalf :
    (myStrtod ([32, 32] ++ (minusTwelveAndHalf.text ++
      (((some minusTwo).map Exponent.text).getD [] ++ [32, 0]))) : Option (ℚ × List UInt8)) =
      some (-1 / 8, [32, 0]) := by
  have hint : natOf [49, 50] = 12 := rfl
  have hfrac : natOf [53] = 5 := rfl
  have hexpo : natOf [50] = 2 := rfl
  rw [strtod_exact (by simp [myIsspace]) _ _ rfl (by decide) (by decide)]
  norm_num [minusTwelveAndHalf, minusTwo, Literal.value, Exponent.value, signed, hint, hfrac,
    hexpo]

end TdPrinter
