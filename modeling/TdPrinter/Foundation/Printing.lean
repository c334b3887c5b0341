import Mathlib.Data.Nat.Digits.Lemmas
import TdPrinter.Foundation.CString

/-!
# Printing numbers

The conversion `%d` of `sprintf`, and that `atoi` reads back what it has printed, whatever follows.
-/

namespace TdPrinter

/-- The digits of a number, the first one in front. -/
def decimal (n : ℕ) : List UInt8 :=
  if n = 0 then [48] else ((Nat.digits 10 n).map fun d => 48 + UInt8.ofNat d).reverse

/-- `%d`. -/
def printInt (x : ℤ) : List UInt8 := if x < 0 then 45 :: decimal x.natAbs else decimal x.natAbs

theorem digit_char {d : ℕ} (hd : d < 10) :
    isDigit (48 + UInt8.ofNat d) = true ∧ digit (48 + UInt8.ofNat d) = d := by
  interval_cases d <;> decide

theorem natOf_reverse_map {ds : List ℕ} (hds : ∀ d ∈ ds, d < 10) :
    natOf (ds.map fun d => 48 + UInt8.ofNat d).reverse = Nat.ofDigits 10 ds := by
  induction ds with
  | nil => rfl
  | cons d ds ih =>
      rw [List.map_cons, List.reverse_cons, natOf_concat, (digit_char (hds d (by simp))).2,
        ih fun b hb => hds b (by simp [hb]), Nat.ofDigits_cons]
      omega

theorem decimal_isDigit (n : ℕ) : ∀ c ∈ decimal n, isDigit c = true := by
  intro c hc
  rw [decimal] at hc
  split at hc
  · obtain rfl := List.mem_singleton.mp hc
    rfl
  · rw [List.mem_reverse, List.mem_map] at hc
    obtain ⟨d, hd, rfl⟩ := hc
    exact (digit_char (Nat.digits_lt_base (by decide) hd)).1

theorem decimal_ne_nil (n : ℕ) : decimal n ≠ [] := by
  rw [decimal]
  split
  · exact List.cons_ne_nil _ _
  · next hn => simpa [Nat.digits_ne_nil_iff_ne_zero] using hn

theorem natOf_decimal (n : ℕ) : natOf (decimal n) = n := by
  rw [decimal]
  split
  · next hn => rw [hn]; rfl
  · rw [natOf_reverse_map fun d hd => Nat.digits_lt_base (by decide) hd, Nat.ofDigits_digits]

theorem length_decimal_le_iff {n k : ℕ} (hk : 0 < k) : (decimal n).length ≤ k ↔ n < 10 ^ k := by
  rw [decimal]
  split
  · next hn =>
      rw [hn]
      exact iff_of_true hk (by positivity)
  · rw [List.length_reverse, List.length_map, Nat.digits_length_le_iff (by decide)]

theorem atoi_decimal {n : ℕ} (hn : n < 2 ^ 31) {z : UInt8} (hz : isDigit z = false)
    (s : List UInt8) : atoi (decimal n ++ z :: s) = n := by
  rw [atoi_digits (decimal_isDigit n) (decimal_ne_nil n) hz, natOf_decimal]
  omega

end TdPrinter
