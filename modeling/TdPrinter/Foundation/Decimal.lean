import Mathlib.Data.List.Induction
import Mathlib.Tactic.FieldSimp
import Mathlib.Tactic.Ring
import TdPrinter.Foundation.Arithmetic

/-!
# Decimal numbers

The number that a string of digits denotes, and what the usual loops compute from it: the
integer part by Horner's rule, the same in a counter of limited size, the fraction with a
weight that shrinks digit by digit, and a power by squaring.

A `Literal` is a decimal as it is written, with an optional sign and fraction.
-/

namespace TdPrinter

/-- `(unsigned)(c - '0') < 10`. -/
def isDigit (c : UInt8) : Bool := c - 48 < 10

def digit (c : UInt8) : ℕ := (c - 48).toNat

theorem isDigit_iff {c : UInt8} : isDigit c = true ↔ 48 ≤ c.toNat ∧ c.toNat ≤ 57 := by
  have hbyte := c.toNat_lt
  rw [isDigit, decide_eq_true_iff, UInt8.lt_iff_toNat_lt, UInt8.toNat_sub]
  change (256 - 48 + c.toNat) % 256 < 10 ↔ _
  omega

/-- The number that a string of digits denotes. -/
def natOf (ds : List UInt8) : ℕ := ds.foldl (fun n c => 10 * n + digit c) 0

theorem natOf_concat (ds : List UInt8) (c : UInt8) :
    natOf (ds ++ [c]) = 10 * natOf ds + digit c := by
  rw [natOf, List.foldl_concat, ← natOf]

theorem foldl_horner {R : Type*} [CommSemiring R] (ds : List UInt8) (v : R) :
    ds.foldl (fun v c => v * 10 + (digit c : R)) v = v * 10 ^ ds.length + natOf ds := by
  induction ds using List.reverseRecOn with
  | nil => simp [natOf]
  | append_singleton ds c ih =>
      rw [List.foldl_concat, ih, natOf_concat, List.length_append, List.length_singleton]
      push_cast
      ring

theorem foldl_mod (m : ℕ) (ds : List UInt8) :
    ds.foldl (fun n c => (10 * n + digit c) % m) 0 = natOf ds % m := by
  induction ds using List.reverseRecOn with
  | nil => simp [natOf]
  | append_singleton ds c ih =>
      rw [List.foldl_concat, ih, natOf_concat, Nat.add_mod, Nat.mul_mod, Nat.mod_mod,
        ← Nat.mul_mod, ← Nat.add_mod]

section

variable {R : Type*} [Field R] [CharZero R]

theorem foldl_fraction (ds : List UInt8) (v : R) :
    ds.foldl (fun (a : R × R) c => (a.1 + digit c * (a.2 * (1 / 10)), a.2 * (1 / 10))) (v, 1) =
      (v + natOf ds / 10 ^ ds.length, 1 / 10 ^ ds.length) := by
  induction ds using List.reverseRecOn with
  | nil => simp [natOf]
  | append_singleton ds c ih =>
      rw [List.foldl_concat, ih, natOf_concat, List.length_append, List.length_singleton]
      refine Prod.ext ?_ ?_
      · dsimp only
        push_cast
        field_simp
        ring
      · dsimp only
        rw [pow_succ, one_div_mul_one_div]

end

/-! ## Powers by squaring -/

/-- `while (1) { if (expo & 1) value *= factor; if ((expo >>= 1) == 0) break;
factor *= factor; }` for a counter `expo` of `bits` bits; no result if it needs more
turns. -/
def powerLoop {R : Type*} [Monoid R] : ℕ → R → R → ℕ → Option R
  | 0, _, _, _ => none
  | bits + 1, value, factor, expo =>
      let value := if expo % 2 = 1 then value * factor else value
      if expo / 2 = 0 then some value else powerLoop bits value (factor * factor) (expo / 2)

theorem powerLoop_eq {R : Type*} [CommMonoid R] {bits : ℕ} (hbits : bits ≠ 0) {expo : ℕ}
    (hexpo : expo < 2 ^ bits) (value factor : R) :
    powerLoop bits value factor expo = some (value * factor ^ expo) := by
  induction bits generalizing value factor expo with
  | zero => exact absurd rfl hbits
  | succ bits ih =>
      have hpow : (if expo % 2 = 1 then value * factor else value) *
          (factor * factor) ^ (expo / 2) = value * factor ^ expo := by
        rw [← pow_two, ← pow_mul]
        rcases Nat.mod_two_eq_zero_or_one expo with heven | hodd
        · have hhalf : 2 * (expo / 2) = expo := by omega
          rw [if_neg (by omega), hhalf]
        · have hhalf : 1 + 2 * (expo / 2) = expo := by omega
          rw [if_pos hodd, mul_assoc, ← pow_succ', Nat.add_comm, hhalf]
      rw [powerLoop]
      by_cases hlast : expo / 2 = 0
      · rw [hlast, pow_zero, mul_one] at hpow
        simp only [hlast, if_true, hpow]
      · have hsmall : expo / 2 < 2 ^ bits := by
          rw [pow_succ] at hexpo
          omega
        have hmore : bits ≠ 0 := by
          rintro rfl
          omega
        simp only [hlast, if_false]
        rw [ih hmore hsmall, hpow]

/-! ## Literals -/

structure Literal where
  sign : Option UInt8
  int : List UInt8
  /-- what stands behind the point, if there is one -/
  frac : Option (List UInt8)
  sign_eq : ∀ c ∈ sign, c = 43 ∨ c = 45
  int_digits : ∀ c ∈ int, isDigit c = true
  frac_digits : ∀ c ∈ frac.getD [], isDigit c = true
  digits_ne : int ++ frac.getD [] ≠ []

/-- A minus sign makes a number negative. -/
def signed {R : Type*} [Neg R] (sign : Option UInt8) (x : R) : R := if sign = some 45 then -x else x

def Literal.value {R : Type*} [Field R] (l : Literal) : R :=
  signed l.sign (natOf l.int + natOf (l.frac.getD []) / 10 ^ (l.frac.getD []).length)

def Literal.text (l : Literal) : List UInt8 :=
  l.sign.toList ++ (l.int ++ (l.frac.map (46 :: ·)).getD [])

end TdPrinter
