import Mathlib.Algebra.Order.Field.Power
import Mathlib.Tactic.FieldSimp
import Mathlib.Tactic.Linarith
import Mathlib.Tactic.NormNum
import Mathlib.Tactic.Positivity
import Mathlib.Tactic.Ring
import Worksheet.Number.Decimal

/-!
# The numbers that round to a double

A double and a decimal stand for rational numbers (`Binary.toRat`,
`Decimal.toRat`), and the numbers a double is the nearest one to make up an
interval around it (`Binary.Rounds`). Its ends are half a unit away, but the
lower one is a quarter away at a power of two, where the doubles get denser;
they belong to the interval if the significand is even.

The search for the fewest digits looks at this interval with whole numbers only;
`Binary.readsBack_iff` says that it looks at the right one.
-/

namespace Worksheet.Number

/-- The number a significand and an exponent stand for, exactly. -/
def Binary.toRat (b : Binary) : ℚ :=
  b.significand * 2 ^ b.exponent

/-- The number some digits and an exponent stand for, exactly. -/
def Decimal.toRat (d : Decimal) : ℚ :=
  d.digits * 10 ^ d.exponent

theorem zpow_eq_div {a : ℚ} (ha : a ≠ 0) (n : ℤ) :
    a ^ n = a ^ n.toNat / a ^ (-n).toNat := by
  conv_lhs => rw [← Int.toNat_sub_toNat_neg n]
  rw [zpow_sub₀ ha, zpow_natCast, zpow_natCast]

namespace Binary

/-- **A double is the quotient** of its numerator and its denominator, which are
what `readsBack` computes with. -/
theorem toRat_eq_div (b : Binary) : b.toRat = b.num / b.den := by
  unfold toRat num den
  rw [zpow_eq_div two_ne_zero]
  push_cast
  ring

/-- **A positive double**: it has at most 53 bits, and all of them but for the
smallest exponent. -/
structure IsDouble (b : Binary) : Prop where
  /-- It is not zero. -/
  pos : 0 < b.significand
  /-- It has at most 53 bits. -/
  lt : b.significand < 2 ^ 53
  /-- The smallest exponent. -/
  le_exponent : -1074 ≤ b.exponent
  /-- The largest exponent. -/
  exponent_le : b.exponent ≤ 971
  /-- Only with the smallest exponent are there fewer bits. -/
  normal : 2 ^ 52 ≤ b.significand ∨ b.exponent = -1074

/-- **A positive double but for its exponent**, which may be as large as one
likes: numbers are rounded to it before it is seen whether they are too large. -/
structure IsUnbounded (b : Binary) : Prop where
  /-- It is not zero. -/
  pos : 0 < b.significand
  /-- It has at most 53 bits. -/
  lt : b.significand < 2 ^ 53
  /-- The smallest exponent. -/
  le_exponent : -1074 ≤ b.exponent
  /-- Only with the smallest exponent are there fewer bits. -/
  normal : 2 ^ 52 ≤ b.significand ∨ b.exponent = -1074

theorem IsDouble.isUnbounded {b : Binary} (h : b.IsDouble) : b.IsUnbounded :=
  ⟨h.pos, h.lt, h.le_exponent, h.normal⟩

theorem IsUnbounded.isDouble {b : Binary} (h : b.IsUnbounded) (hexponent : b.exponent ≤ 971) :
    b.IsDouble :=
  ⟨h.pos, h.lt, h.le_exponent, hexponent, h.normal⟩

/-- How far down the numbers reach that round to a double, in its units. At a
power of two it is half of what it is elsewhere. -/
def below (b : Binary) : ℚ :=
  if b.significand = 2 ^ 52 ∧ -1074 < b.exponent then 1 / 4 else 1 / 2

def lowest (b : Binary) : ℚ :=
  (b.significand - b.below) * 2 ^ b.exponent

def highest (b : Binary) : ℚ :=
  (b.significand + 1 / 2) * 2 ^ b.exponent

/-- **A number rounds to a double**: it is in the interval around it. The ends
belong to it if the significand is even. -/
def Rounds (b : Binary) (x : ℚ) : Prop :=
  if b.significand % 2 = 0 then b.lowest ≤ x ∧ x ≤ b.highest
  else b.lowest < x ∧ x < b.highest

theorem below_pos (b : Binary) : 0 < b.below := by
  unfold below
  split <;> norm_num

theorem below_le (b : Binary) : b.below ≤ 1 / 2 := by
  unfold below
  split <;> norm_num

/-- **Inside the interval** it does not matter whether the ends belong to it. -/
theorem rounds_of_lt {b : Binary} {x : ℚ} (hlow : b.lowest < x) (hhigh : x < b.highest) :
    b.Rounds x := by
  unfold Rounds
  split
  · exact ⟨hlow.le, hhigh.le⟩
  · exact ⟨hlow, hhigh⟩

theorem Rounds.lowest_le {b : Binary} {x : ℚ} (h : b.Rounds x) : b.lowest ≤ x := by
  unfold Rounds at h
  split at h
  · exact h.1
  · exact h.1.le

theorem Rounds.le_highest {b : Binary} {x : ℚ} (h : b.Rounds x) : x ≤ b.highest := by
  unfold Rounds at h
  split at h
  · exact h.2
  · exact h.2.le

/-- **A double rounds to itself.** -/
theorem rounds_toRat (b : Binary) : b.Rounds b.toRat := by
  have hpow : (0 : ℚ) < 2 ^ b.exponent := by positivity
  refine rounds_of_lt ?_ ?_
  · exact mul_lt_mul_of_pos_right (sub_lt_self _ b.below_pos) hpow
  · exact mul_lt_mul_of_pos_right (lt_add_of_pos_right _ (by norm_num)) hpow

/-! ## The same interval with whole numbers

What runs compares whole numbers. Decimal and bound are brought over one
denominator, and the comparison is the one of the rational numbers. -/

/-- A decimal and a bound in quarters, over one denominator. Both become whole
numbers there. -/
theorem exists_scale (n : ℕ) (e : ℤ) (d : Decimal) :
    ∃ scale : ℚ, 0 < scale ∧
      (n / 4 : ℚ) * 2 ^ e * scale = (n * (2 ^ e.toNat * 10 ^ (-d.exponent).toNat) : ℕ) ∧
      d.toRat * scale = (d.digits * 10 ^ d.exponent.toNat * 4 * 2 ^ (-e).toNat : ℕ) := by
  refine ⟨4 * 2 ^ (-e).toNat * 10 ^ (-d.exponent).toNat, by positivity, ?_, ?_⟩
  · rw [zpow_eq_div two_ne_zero]
    push_cast
    field_simp
  · unfold Decimal.toRat
    rw [zpow_eq_div (by norm_num : (10 : ℚ) ≠ 0)]
    push_cast
    field_simp

theorem scaled_le_iff (n : ℕ) (e : ℤ) (d : Decimal) :
    n * (2 ^ e.toNat * 10 ^ (-d.exponent).toNat)
        ≤ d.digits * 10 ^ d.exponent.toNat * 4 * 2 ^ (-e).toNat
      ↔ (n / 4 : ℚ) * 2 ^ e ≤ d.toRat := by
  obtain ⟨scale, hpos, hbound, hvalue⟩ := exists_scale n e d
  rw [← Nat.cast_le (α := ℚ), ← hbound, ← hvalue]
  exact mul_le_mul_iff_left₀ hpos

theorem le_scaled_iff (n : ℕ) (e : ℤ) (d : Decimal) :
    d.digits * 10 ^ d.exponent.toNat * 4 * 2 ^ (-e).toNat
        ≤ n * (2 ^ e.toNat * 10 ^ (-d.exponent).toNat)
      ↔ d.toRat ≤ (n / 4 : ℚ) * 2 ^ e := by
  obtain ⟨scale, hpos, hbound, hvalue⟩ := exists_scale n e d
  rw [← Nat.cast_le (α := ℚ), ← hbound, ← hvalue]
  exact mul_le_mul_iff_left₀ hpos

/-- **A decimal reads back as a double if it rounds to it.** `readsBack`
compares whole numbers over the one denominator. -/
theorem readsBack_iff {b : Binary} (hpos : 0 < b.significand) (d : Decimal) :
    readsBack b d = true ↔ b.Rounds d.toRat := by
  have hlow : ((4 * b.significand
        - (if b.significand = 2 ^ 52 ∧ -1074 < b.exponent then 1 else 2) : ℕ) / 4 : ℚ)
      = b.significand - b.below := by
    unfold below
    split
    · rw [Nat.cast_sub (by omega)]
      push_cast
      ring
    · rw [Nat.cast_sub (by omega)]
      push_cast
      ring
  have hhigh : ((4 * b.significand + 2 : ℕ) / 4 : ℚ) = b.significand + 1 / 2 := by
    push_cast
    ring
  -- the ends in quarters of a unit, as the comparison has them
  unfold readsBack Rounds lowest highest den
  rw [← hlow, ← hhigh]
  by_cases heven : b.significand % 2 = 0
  · rw [if_pos heven, if_pos heven]
    simp only [Bool.and_eq_true, decide_eq_true_eq]
    exact and_congr (scaled_le_iff _ _ d) (le_scaled_iff _ _ d)
  · rw [if_neg heven, if_neg heven]
    simp only [Bool.and_eq_true, decide_eq_true_eq]
    exact and_congr (lt_iff_lt_of_le_iff_le (le_scaled_iff _ _ d))
      (lt_iff_lt_of_le_iff_le (scaled_le_iff _ _ d))

end Binary

end Worksheet.Number
