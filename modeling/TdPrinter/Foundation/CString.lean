import TdPrinter.Foundation.Decimal

/-!
# Strings

Two functions of the C library on strings, which end in front of the first null byte.  A
pointer is the list of what lies from it to the end of the memory.
-/

namespace TdPrinter

/-! ## Numbers -/

/-- `atoi`, which like `strtol` stops at the limits of its type. -/
def atoi (s : List UInt8) : ℤ :=
  let s := s.dropWhile fun c => c = 32 ∨ (9 ≤ c ∧ c ≤ 13)
  let digits := (if s.head? = some 43 ∨ s.head? = some 45 then s.tail else s).takeWhile
    fun c => 48 ≤ c ∧ c ≤ 57
  let n : ℤ := digits.foldl (fun n c => 10 * n + (c.toNat - 48)) 0
  max (-2147483648) (min 2147483647 (if s.head? = some 45 then -n else n))

theorem isDigit_eq_decide (c : UInt8) : isDigit c = decide (48 ≤ c ∧ c ≤ 57) := by
  rw [Bool.eq_iff_iff, isDigit_iff, decide_eq_true_iff, UInt8.le_iff_toNat_le,
    UInt8.le_iff_toNat_le]
  rfl

theorem foldl_digits {ds : List UInt8} (hds : ∀ c ∈ ds, isDigit c = true) :
    ds.foldl (fun (n : ℤ) c => 10 * n + (c.toNat - 48)) 0 = natOf ds := by
  induction ds using List.reverseRecOn with
  | nil => rfl
  | append_singleton ds c ih =>
      have hc : isDigit c = true := hds c (by simp)
      have hdigit : ((digit c : ℕ) : ℤ) = (c.toNat : ℤ) - 48 := by
        have hbyte := c.toNat_lt
        rw [isDigit_iff] at hc
        rw [digit, UInt8.toNat_sub]
        change (((256 - 48 + c.toNat) % 256 : ℕ) : ℤ) = _
        omega
      rw [List.foldl_concat, ih fun b hb => hds b (by simp [hb]), natOf_concat]
      push_cast
      rw [hdigit]

/-- `atoi` of a number that is followed by something else. -/
theorem atoi_digits {ds : List UInt8} (hds : ∀ c ∈ ds, isDigit c = true) (hne : ds ≠ [])
    {z : UInt8} (hz : isDigit z = false) (s : List UInt8) :
    atoi (ds ++ z :: s) = min 2147483647 (natOf ds) := by
  obtain ⟨d, ds', rfl⟩ := List.exists_cons_of_ne_nil hne
  have hd : 48 ≤ d.toNat ∧ d.toNat ≤ 57 := isDigit_iff.mp (hds d List.mem_cons_self)
  have hspace : ¬ (d = 32 ∨ (9 ≤ d ∧ d ≤ 13)) := by
    rw [UInt8.le_iff_toNat_le, UInt8.le_iff_toNat_le, ← UInt8.toNat_inj]
    change ¬ (d.toNat = 32 ∨ (9 ≤ d.toNat ∧ d.toNat ≤ 13))
    omega
  have hplus : d ≠ 43 := by
    rintro rfl
    simp at hd
  have hminus : d ≠ 45 := by
    rintro rfl
    simp at hd
  have htake : (d :: ds' ++ z :: s).takeWhile (fun c => decide (48 ≤ c ∧ c ≤ 57)) = d :: ds' := by
    have hsame : (fun c : UInt8 => decide (48 ≤ c ∧ c ≤ 57)) = isDigit :=
      funext fun c => (isDigit_eq_decide c).symm
    rw [hsame, List.takeWhile_append_of_pos hds, List.takeWhile_cons_of_neg (by simp [hz]),
      List.append_nil]
  have hdrop : (d :: ds' ++ z :: s).dropWhile (fun c => decide (c = 32 ∨ (9 ≤ c ∧ c ≤ 13))) =
      d :: ds' ++ z :: s := by
    rw [List.cons_append, List.dropWhile_cons_of_neg (by simpa using hspace)]
  have hsign : ¬ ((d :: ds' ++ z :: s).head? = some 43 ∨ (d :: ds' ++ z :: s).head? = some 45) := by
    simp [hplus, hminus]
  have hneg : ¬ (d :: ds' ++ z :: s).head? = some 45 := by simp [hminus]
  simp only [atoi, hdrop, if_neg hsign, if_neg hneg, htake, foldl_digits hds]
  have hnonneg : (0 : ℤ) ≤ natOf (d :: ds') := Int.natCast_nonneg _
  omega

/-! ## Searching -/

/-- `strchr`: a pointer to the first `c` in the string, if there is one.  (The string has a
terminator; nothing is said about memory without one.) -/
def strchr (c : UInt8) : List UInt8 → Option (List UInt8)
  | [] => none
  | d :: s => if d = c then some (d :: s) else if d = 0 then none else strchr c s

theorem strchr_skip {c : UInt8} {t : List UInt8} (ht : 0 ∉ t) (hc : c ∉ t) (s : List UInt8) :
    strchr c (t ++ s) = strchr c s := by
  induction t with
  | nil => rfl
  | cons d t ih =>
      rw [List.mem_cons, not_or] at ht hc
      rw [List.cons_append, strchr, if_neg (Ne.symm hc.1), if_neg (Ne.symm ht.1), ih ht.2 hc.2]

theorem strchr_text {c : UInt8} {t : List UInt8} (ht : 0 ∉ t) (hc : c ∉ t) (s : List UInt8) :
    strchr c (t ++ c :: s) = some (c :: s) := by
  rw [strchr_skip ht hc, strchr, if_pos rfl]

theorem strchr_append {c : UInt8} (hzero : c ≠ 0) (t s : List UInt8) (ht : 0 ∉ t) :
    strchr c (t ++ 0 :: s) = (strchr c t).map (· ++ 0 :: s) := by
  induction t with
  | nil => simp [strchr, Ne.symm hzero]
  | cons d t ih =>
      rw [List.mem_cons, not_or] at ht
      rw [List.cons_append, strchr, strchr]
      by_cases hd : d = c
      · simp [hd]
      · rw [if_neg hd, if_neg hd, if_neg (Ne.symm ht.1), if_neg (Ne.symm ht.1), ih ht.2]

/-- What is in the string is found, and what is not is not. -/
theorem strchr_isSome_iff {c : UInt8} {t : List UInt8} (ht : 0 ∉ t) :
    (strchr c t).isSome ↔ c ∈ t := by
  induction t with
  | nil => simp [strchr]
  | cons d t ih =>
      rw [List.mem_cons, not_or] at ht
      rw [strchr, List.mem_cons]
      by_cases hd : d = c
      · simp [hd]
      · rw [if_neg hd, if_neg (Ne.symm ht.1), ih ht.2]
        simp [Ne.symm hd]

theorem strchr_eq_some {c : UInt8} {t lp : List UInt8} (h : strchr c t = some lp) :
    lp = c :: lp.tail := by
  induction t with
  | nil => simp [strchr] at h
  | cons d t ih =>
      rw [strchr] at h
      split at h
      · rename_i hd
        obtain rfl := Option.some.inj h
        rw [hd, List.tail_cons]
      · split at h
        · exact absurd h (by simp)
        · exact ih h

/-! ## Numbers and terminators -/

theorem takeWhile_of_stop {α : Type*} {p : α → Bool} {z : α} (hz : p z = false) (l r : List α) :
    (l ++ z :: r).takeWhile p = l.takeWhile p := by
  induction l with
  | nil => simp [hz]
  | cons c l ih => cases hc : p c <;> simp [hc, ih]

theorem dropWhile_of_stop {α : Type*} {p : α → Bool} {z : α} (hz : p z = false) (l r : List α) :
    (l ++ z :: r).dropWhile p = l.dropWhile p ++ z :: r := by
  induction l with
  | nil => simp [hz]
  | cons c l ih => cases hc : p c <;> simp [hc, ih]

theorem atoi_local (t s s' : List UInt8) : atoi (t ++ 0 :: s) = atoi (t ++ 0 :: s') := by
  have hdrop := dropWhile_of_stop (p := fun c : UInt8 => decide (c = 32 ∨ (9 ≤ c ∧ c ≤ 13)))
    (z := 0) rfl t
  have htake := takeWhile_of_stop (p := fun c : UInt8 => decide (48 ≤ c ∧ c ≤ 57)) (z := 0) rfl
  have hhead : (t.dropWhile (fun c => decide (c = 32 ∨ (9 ≤ c ∧ c ≤ 13))) ++ 0 :: s).head? =
      (t.dropWhile (fun c => decide (c = 32 ∨ (9 ≤ c ∧ c ≤ 13))) ++ 0 :: s').head? := by
    cases t.dropWhile fun c => decide (c = 32 ∨ (9 ≤ c ∧ c ≤ 13)) <;> rfl
  unfold atoi
  simp only [hdrop]
  rw [hhead]
  cases t.dropWhile fun c => decide (c = 32 ∨ (9 ≤ c ∧ c ≤ 13)) with
  | nil => rfl
  | cons c u =>
      by_cases hsign : (c :: u ++ 0 :: s').head? = some 43 ∨ (c :: u ++ 0 :: s').head? = some 45
      · rw [if_pos hsign, if_pos hsign, List.cons_append, List.cons_append, List.tail_cons,
          List.tail_cons, htake, htake]
      · rw [if_neg hsign, if_neg hsign, htake, htake]

end TdPrinter
