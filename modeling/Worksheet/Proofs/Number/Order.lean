import Worksheet.Proofs.Number.PlainText
import Worksheet.Proofs.Number.Range
import Worksheet.Proofs.Number.Rank

/-!
# The order of doubles

Doubles are compared by their exponents first and then by their significands,
and this is the order of the numbers they stand for (`Binary.IsDouble.lt_iff`,
`Binary.IsDouble.le_iff`): only with the smallest exponent are there fewer bits
than 53.

A number that is not zero has a size (`Binary.abs_eq`), and below one it is its
own fractional part (`fract_eq_self`). Its leading digit tells between which
powers of ten the size is (`Binary.IsDouble.zpow_leadingExponent_le`,
`Binary.IsDouble.lt_zpow_leadingExponent`).
-/

namespace Worksheet.Number

open Float.Model Float.Model.UnpackedFloat

namespace Binary

variable {b₁ b₂ : Binary}

/-- With a larger exponent a double is larger, since only the smallest one goes
with fewer bits. -/
theorem IsDouble.toRat_lt_of_exponent_lt (h₁ : b₁.IsDouble) (h₂ : b₂.IsDouble)
    (h : b₁.exponent < b₂.exponent) : b₁.toRat < b₂.toRat := by
  have hexponent := h₁.le_exponent
  have hnormal : ((2 ^ 52 : ℕ) : ℚ) ≤ b₂.significand :=
    Nat.cast_le.2 (h₂.normal.resolve_right (by omega))
  have hbits : (b₁.significand : ℚ) < (2 ^ 53 : ℕ) := Nat.cast_lt.2 h₁.lt
  calc b₁.toRat < (2 ^ 53 : ℕ) * 2 ^ b₁.exponent :=
        mul_lt_mul_of_pos_right hbits (by positivity)
    _ = (2 ^ 52 : ℕ) * 2 ^ (b₁.exponent + 1) := by
        rw [zpow_add_one₀ two_ne_zero]
        push_cast
        ring
    _ ≤ b₂.toRat :=
        mul_le_mul hnormal (zpow_le_zpow_right₀ one_le_two h) (by positivity) (Nat.cast_nonneg _)

/-- **The order of the numbers** is that of the exponents, and then of the
significands. -/
theorem IsDouble.compare_eq (h₁ : b₁.IsDouble) (h₂ : b₂.IsDouble) :
    (compare b₁.exponent b₂.exponent).then (compare b₁.significand b₂.significand)
      = compare b₁.toRat b₂.toRat := by
  rcases lt_trichotomy b₁.exponent b₂.exponent with hlt | heq | hgt
  · rw [compare_lt_iff_lt.2 hlt, compare_lt_iff_lt.2 (h₁.toRat_lt_of_exponent_lt h₂ hlt)]
    rfl
  · have hpow : (0 : ℚ) < 2 ^ b₂.exponent := by positivity
    rw [compare_eq_iff_eq.2 heq, toRat, toRat, heq]
    show compare b₁.significand b₂.significand = _
    rcases lt_trichotomy b₁.significand b₂.significand with hlt | heq' | hgt
    · rw [compare_lt_iff_lt.2 hlt,
        compare_lt_iff_lt.2 (mul_lt_mul_of_pos_right (Nat.cast_lt.2 hlt) hpow)]
    · rw [compare_eq_iff_eq.2 heq', heq', compare_eq_iff_eq.2 rfl]
    · rw [compare_gt_iff_gt.2 hgt,
        compare_gt_iff_gt.2 (mul_lt_mul_of_pos_right (Nat.cast_lt.2 hgt) hpow)]
  · rw [compare_gt_iff_gt.2 hgt, compare_gt_iff_gt.2 (h₂.toRat_lt_of_exponent_lt h₁ hgt)]
    rfl

theorem IsDouble.compare_toFloat (h₁ : b₁.IsDouble) (h₂ : b₂.IsDouble) :
    UnpackedFloat.compare h₁.toFloat.toModel.unpack h₂.toFloat.toModel.unpack
      = some (compare b₁.toRat b₂.toRat) := by
  rw [h₁.unpack_toFloat, h₂.unpack_toFloat, ← h₁.compare_eq h₂]
  rfl

/-- **One double is below another** when its number is. -/
theorem IsDouble.lt_iff (h₁ : b₁.IsDouble) (h₂ : b₂.IsDouble) :
    h₁.toFloat < h₂.toFloat ↔ b₁.toRat < b₂.toRat := by
  rw [lt_iff_compare, h₁.compare_toFloat h₂, Option.some.injEq, compare_lt_iff_lt]

/-- **One double is at most another** when its number is. -/
theorem IsDouble.le_iff (h₁ : b₁.IsDouble) (h₂ : b₂.IsDouble) :
    h₁.toFloat ≤ h₂.toFloat ↔ b₁.toRat ≤ b₂.toRat := by
  show Float.le _ _ = true ↔ _
  rw [Float.le, decide_eq_true_eq]
  show (UnpackedFloat.compare _ _).any (·.isLE) = true ↔ _
  rw [h₁.compare_toFloat h₂, Option.any_some, Ordering.isLE_iff_ne_gt, compare_gt_iff_gt]
  exact not_lt

end Binary

/-! ## Sizes

The size of a number is the double of its magnitude. What comparisons make of a
number with a sign is told from its size. -/

variable {v : Float}

/-- There are two numbers without a significand, the two zeros. -/
theorem eq_zero_or_of_significand (h : (magnitude v).significand = 0) : v = 0 ∨ v = -0 := by
  cases hsign : isSigned v with
  | false => exact .inl (eq_zero_of_significand hsign h)
  | true =>
    right
    have hle : 2 ^ 63 ≤ v.toBits.toNat := of_decide_eq_true hsign
    have hlt : v.toBits.toNat < 2 ^ 64 := v.toBits.toBitVec.isLt
    refine eq_of_toBits ?_
    rw [show (-0 : Float).toBits.toNat = 2 ^ 63 by decide]
    unfold magnitude at h
    dsimp only at h
    split at h
    · dsimp only at h
      omega
    · dsimp only at h
      omega

theorem significand_pos (h : (v == 0) = false) : 0 < (magnitude v).significand := by
  refine Nat.pos_of_ne_zero fun hnone => Bool.false_ne_true (h.symm.trans ?_)
  rcases eq_zero_or_of_significand hnone with rfl | rfl <;> decide

theorem Binary.abs_eq (h : (magnitude v).IsDouble) : v.abs = h.toFloat := by
  conv_lhs => rw [← withSign_magnitude h]
  show Float.ofModel (.pack (h.withSign _).toModel.unpack.abs) = _
  rw [h.unpack_withSign]
  rfl

/-- **The size of a finite number** is finite and has the same magnitude. -/
theorem isFinite_magnitude_abs (hfinite : v.isFinite = true) :
    v.abs.isFinite = true ∧ magnitude v.abs = magnitude v := by
  rcases Nat.eq_zero_or_pos (magnitude v).significand with hnone | hpos
  · rcases eq_zero_or_of_significand hnone with rfl | rfl <;> decide
  · have h := Binary.isDouble_magnitude hfinite hpos
    rw [Binary.abs_eq h]
    exact ⟨h.isFinite_toFloat, h.magnitude_toFloat⟩

/-- Nothing is lost when zero is taken away. -/
theorem sub_zero_of_isDouble (h : (magnitude v).IsDouble) {w : Float} (sign : Sign)
    (hzero : w.toModel.unpack = .zero sign) : v - w = v := by
  conv_lhs => rw [← Binary.withSign_magnitude h]
  show Float.ofModel (.pack (UnpackedFloat.sub Format.binary64
    (h.withSign (signOf v)).toModel.unpack w.toModel.unpack)) = v
  rw [h.unpack_withSign, hzero]
  exact Binary.withSign_magnitude h

/-- **A number below one is its own fractional part**: what `fract` takes away
is zero. -/
theorem fract_eq_self (h : (magnitude v).IsDouble) (hlt : (magnitude v).toRat < 1) :
    fract v = v := by
  have hwhole : (magnitude v).whole = 0 := by
    rw [Binary.toRat_eq_div, div_lt_one (Nat.cast_pos.2 (magnitude v).den_pos)] at hlt
    exact Nat.div_eq_of_lt (Nat.cast_lt.1 hlt)
  have hexponent : ¬0 ≤ (magnitude v).exponent := by
    intro hle
    refine absurd hlt (not_lt.2 ?_)
    calc (1 : ℚ) = 1 * 1 := (one_mul 1).symm
      _ ≤ (magnitude v).significand * 2 ^ (magnitude v).exponent :=
          mul_le_mul (Nat.one_le_cast.2 h.pos) (one_le_zpow₀ one_le_two hle) zero_le_one
            (Nat.cast_nonneg _)
  rw [fract, trunc, if_neg hexponent, hwhole]
  split
  · exact sub_zero_of_isDouble h .negative rfl
  · exact sub_zero_of_isDouble h .positive rfl

/-! ## The leading digit

The exponent of the leading digit is computed with whole numbers. It is the one
power of ten that the number lies above and within a factor of ten of. -/

/-- **A fraction is below the next power of ten** after its leading digit. -/
theorem lt_zpow_leadingExponent {num den : ℕ} (hnum : 0 < num) (hden : 0 < den) :
    (num / den : ℚ) < 10 ^ (leadingExponent num den + 1) := by
  have hpos : (0 : ℚ) < den := Nat.cast_pos.2 hden
  unfold leadingExponent
  split
  · rename_i hle
    have hpow := (Text.pow_length_toDigits (Nat.div_pos hle hden)).2
    rw [sub_add_cancel, zpow_natCast, div_lt_iff₀ hpos]
    have hlt : num < 10 ^ (Nat.toDigits 10 (num / den)).length * den :=
      (Nat.div_lt_iff_lt_mul hden).1 hpow
    exact_mod_cast hlt
  · rename_i hlt
    -- a fraction below one: the exponent is read off the digits of its inverse
    have hpow := (Text.pow_length_toDigits (Nat.div_pos (not_le.1 hlt).le hnum)).1
    generalize (Nat.toDigits 10 (den / num)).length - 1 = places at hpow
    have hten : (0 : ℚ) < 10 ^ places := by positivity
    have hle : num * 10 ^ places ≤ den := by
      rw [Nat.mul_comm]
      exact (Nat.le_div_iff_mul_le hnum).1 hpow
    dsimp only
    split
    · -- the fraction is a power of ten itself
      rename_i heq
      refine lt_of_le_of_lt ?_ (zpow_lt_zpow_right₀ (by norm_num) (lt_add_one _))
      rw [zpow_neg, zpow_natCast, ← one_div, div_le_div_iff₀ hpos hten, one_mul]
      exact_mod_cast heq.le
    · rename_i hne
      rw [sub_add_cancel, zpow_neg, zpow_natCast, ← one_div, div_lt_div_iff₀ hpos hten, one_mul]
      exact_mod_cast hle.lt_of_ne hne

namespace Binary

variable {b : Binary}

/-- **The leading digit of a double** stands at a power of ten that is not above
it. -/
theorem IsDouble.zpow_leadingExponent_le (h : b.IsDouble) :
    10 ^ leadingExponent b.num b.den ≤ b.toRat :=
  b.toRat_eq_div ▸
    Number.zpow_leadingExponent_le (Nat.mul_pos h.pos (Nat.two_pow_pos _)) b.den_pos

/-- **The power of ten after that of the leading digit** is above the double. -/
theorem IsDouble.lt_zpow_leadingExponent (h : b.IsDouble) :
    b.toRat < 10 ^ (leadingExponent b.num b.den + 1) :=
  b.toRat_eq_div ▸
    Number.lt_zpow_leadingExponent (Nat.mul_pos h.pos (Nat.two_pow_pos _)) b.den_pos

end Binary

end Worksheet.Number
