import Worksheet.Proofs.Number.Nearest

/-!
# Rounding to a double

Products and quotients of doubles are computed as a whole number of units and
the two bits after it, which say where between two whole numbers the exact
result lies (`Approximates`). The bits are shifted out down to the exponent the
result will have, and what is left is rounded.

The main result is `roundWithAccuracy_eq`: a number that rounds to a double is
rounded to it. The exponent comes from the size of the number, so it is the
double's own but in one case: just below a power of two the doubles are twice as
dense, the number is rounded there, and the carry leads back to the power.
-/

namespace Worksheet.Number

open Float.Model Float.Model.UnpackedFloat

/-! ## The bits after the significand

Two bits are kept of all that is shifted out: the first one, and whether any
other was set. With them halves, the ties, are told from what is above and
below, and shifting one more bit keeps the two up to date (`shiftRightOne`). -/

/-- Where a number lies after a whole number, as its two further bits say: at
it, before the half, at the half, or after it. -/
def Approximates (extended : ExtendedMantissa) (x : ℚ) : Prop :=
  match extended.roundBit, extended.stickyBit with
  | false, false => x = extended.mantissa
  | false, true => extended.mantissa < x ∧ x < extended.mantissa + 1 / 2
  | true, false => x = extended.mantissa + 1 / 2
  | true, true => extended.mantissa + 1 / 2 < x ∧ x < extended.mantissa + 1

namespace Approximates

variable {extended : ExtendedMantissa} {x : ℚ}

/-- **The whole number is the part before the point.** -/
theorem bounds (h : Approximates extended x) :
    extended.mantissa ≤ x ∧ x < extended.mantissa + 1 := by
  obtain ⟨mantissa, roundBit, stickyBit⟩ := extended
  cases roundBit <;> cases stickyBit <;> dsimp only [Approximates] at h ⊢ <;>
    constructor <;> linarith

/-- **A bit is shifted out** by halving the number. -/
theorem shiftRightOne (h : Approximates extended x) :
    Approximates extended.shiftRightOne (x / 2) := by
  obtain ⟨mantissa, roundBit, stickyBit⟩ := extended
  have hmantissa : (mantissa : ℚ) = 2 * (mantissa / 2 : ℕ) + (mantissa % 2 : ℕ) := by
    exact_mod_cast (Nat.div_add_mod mantissa 2).symm
  rcases Nat.mod_two_eq_zero_or_one mantissa with hmod | hmod
  · rw [hmod, Nat.cast_zero] at hmantissa
    cases roundBit <;> cases stickyBit <;>
      simp only [Approximates, ExtendedMantissa.shiftRightOne, hmod, Bool.or_false, Bool.or_true,
        bne_self_eq_false] at h ⊢
    · linarith
    · constructor <;> linarith
    · constructor <;> linarith
    · constructor <;> linarith
  · rw [hmod, Nat.cast_one] at hmantissa
    cases roundBit <;> cases stickyBit <;>
      simp only [Approximates, ExtendedMantissa.shiftRightOne, hmod, Bool.or_false, Bool.or_true,
        Nat.reduceBNe] at h ⊢
    · linarith
    · constructor <;> linarith
    · constructor <;> linarith
    · constructor <;> linarith

theorem shiftRight (h : Approximates extended x) (n : ℕ) :
    Approximates (extended >>> n) (x / 2 ^ n) := by
  show Approximates (n.repeat ExtendedMantissa.shiftRightOne extended) _
  induction n with
  | zero => rwa [pow_zero, div_one]
  | succ n ih =>
    rw [pow_succ, ← div_div]
    exact ih.shiftRightOne

/-- **What is nearest is rounded to**, an even number also from its ends. -/
theorem roundedMantissa_eq (h : Approximates extended x) {n : ℕ}
    (hlow : n - 1 / 2 ≤ x) (hhigh : x ≤ n + 1 / 2)
    (hodd : n % 2 = 1 → n - 1 / 2 < x ∧ x < n + 1 / 2) :
    extended.roundedMantissa = n := by
  obtain ⟨hfloor, hceil⟩ := h.bounds
  have hle : extended.mantissa < n + 1 := by
    have hlt : (extended.mantissa : ℚ) < (n + 1 : ℕ) := by
      push_cast
      linarith
    exact Nat.cast_lt.1 hlt
  have hge : n < extended.mantissa + 2 := by
    have hlt : (n : ℚ) < (extended.mantissa + 2 : ℕ) := by
      push_cast
      linarith
    exact Nat.cast_lt.1 hlt
  obtain ⟨mantissa, roundBit, stickyBit⟩ := extended
  dsimp only at hfloor hceil hle hge
  -- the number is rounded down to the whole number or up to the next one
  obtain rfl | rfl : n = mantissa ∨ n = mantissa + 1 := by omega
  · cases roundBit <;> cases stickyBit <;> dsimp only [Approximates] at h
    · rfl
    · rfl
    · show n + n % 2 = n
      rcases Nat.mod_two_eq_zero_or_one n with heven | hone
      · rw [heven, Nat.add_zero]
      · exact absurd h (hodd hone).2.ne
    · exact absurd hhigh (not_le.2 h.1)
  · rw [Nat.cast_succ] at hlow hodd
    cases roundBit <;> cases stickyBit <;> dsimp only [Approximates] at h
    · linarith
    · linarith
    · show mantissa + mantissa % 2 = mantissa + 1
      rcases Nat.mod_two_eq_zero_or_one mantissa with heven | hone
      · have := (hodd (by omega)).1
        linarith
      · rw [hone]
    · rfl

end Approximates

/-! ## The exponent of the result

The exponent is chosen from the number of bits before anything is rounded. It
may be one too small, where rounding carries into the next power of two;
`Rounds.target_cases` says that there is no other exception. -/

/-- The exponent a number of some bits is brought to: the one with which it has
53 bits, or the smallest. It is what `shiftToTargetExponent` shifts to. -/
def target (mantissa : ℕ) (exponent : ℤ) : ℤ :=
  max (mantissa.log2 + exponent - 52) (-1074)

theorem targetExponent_eq (mantissa : ℕ) (exponent : ℤ) :
    Format.binary64.targetExponent (totalExponent mantissa exponent)
      = target mantissa exponent := by
  show max (((mantissa.log2 : ℤ) + 1 + exponent) - 53) (-1074) = _
  unfold target
  omega

/-- The bits below the exponent are shifted out. -/
theorem shiftToTargetExponent_eq (mantissa : ℕ) {exponent : ℤ} (accuracy : Accuracy)
    (h : exponent ≤ target mantissa exponent) :
    shiftToTargetExponent Format.binary64 mantissa exponent accuracy
      = (ExtendedMantissa.ofMantissaAndAccuracy mantissa accuracy
          >>> (target mantissa exponent - exponent).toNat, target mantissa exponent) := by
  unfold shiftToTargetExponent shiftToExponent
  rw [targetExponent_eq]
  refine Prod.ext rfl ?_
  show exponent + ((target mantissa exponent - exponent).toNat : ℤ) = _
  omega

namespace Binary

variable {b : Binary} {x : ℚ}

/-- **A double has its own exponent.** -/
theorem IsUnbounded.target_eq (h : b.IsUnbounded) :
    target b.significand b.exponent = b.exponent := by
  have hlt : b.significand.log2 < 53 := (Nat.log2_lt h.pos.ne').2 h.lt
  have hexponent := h.le_exponent
  unfold target
  rcases h.normal with hnormal | hsmall
  · have hle : 52 ≤ b.significand.log2 := (Nat.le_log2 h.pos.ne').2 hnormal
    omega
  · omega

theorem Rounds.lt_zpow (h : b.Rounds x) (hb : b.IsUnbounded) : x < 2 ^ (b.exponent + 53) := by
  refine lt_of_le_of_lt h.le_highest ?_
  rw [zpow_add₀ two_ne_zero, mul_comm (2 ^ b.exponent : ℚ)]
  refine mul_lt_mul_of_pos_right ?_ (by positivity)
  have hle : ((b.significand + 1 : ℕ) : ℚ) ≤ (2 ^ 53 : ℕ) := Nat.cast_le.2 hb.lt
  push_cast at hle
  rw [show (2 : ℚ) ^ (53 : ℤ) = 2 ^ 53 from zpow_natCast 2 53]
  linarith

/-- What rounds to a double with all bits is not too small. -/
theorem Rounds.zpow_le (h : b.Rounds x) (hnormal : 2 ^ 52 ≤ b.significand) :
    2 ^ (b.exponent + 51) ≤ x := by
  refine le_trans ?_ h.lowest_le
  rw [zpow_add₀ two_ne_zero, mul_comm (2 ^ b.exponent : ℚ)]
  refine mul_le_mul_of_nonneg_right ?_ (by positivity)
  have hle : (2 : ℚ) ^ 52 ≤ b.significand := by exact_mod_cast hnormal
  have hhalf : (2 : ℚ) ^ 51 + 1 ≤ 2 ^ 52 := by norm_num
  have hbelow := b.below_le
  rw [show (2 : ℚ) ^ (51 : ℤ) = 2 ^ 51 from zpow_natCast 2 51]
  linarith

theorem toRat_of_eq (h : b.significand = 2 ^ 52) : b.toRat = 2 ^ (b.exponent + 52) := by
  unfold toRat
  rw [h, zpow_add₀ two_ne_zero, mul_comm]
  norm_num

/-- **Only below a power of two** is there less than it. -/
theorem Rounds.zpow_le_or (h : b.Rounds x) (hnormal : 2 ^ 52 ≤ b.significand) :
    2 ^ (b.exponent + 52) ≤ x ∨ (b.significand = 2 ^ 52 ∧ x < b.toRat) := by
  rcases hnormal.lt_or_eq with hlt | heq
  · left
    refine le_trans ?_ h.lowest_le
    rw [zpow_add₀ two_ne_zero, mul_comm (2 ^ b.exponent : ℚ)]
    refine mul_le_mul_of_nonneg_right ?_ (by positivity)
    have hle : (2 : ℚ) ^ 52 + 1 ≤ b.significand := by exact_mod_cast hlt
    have hbelow := b.below_le
    rw [show (2 : ℚ) ^ (52 : ℤ) = 2 ^ 52 from zpow_natCast 2 52]
    linarith
  · rw [← toRat_of_eq heq.symm]
    exact (le_or_gt b.toRat x).imp_right fun hlt => ⟨heq.symm, hlt⟩

/-- What is smaller than its unit rounds only to the smallest double. -/
theorem Rounds.exponent_eq (h : b.Rounds x) (hb : b.IsUnbounded) (hlt : x < 2 ^ b.exponent) :
    b.exponent = -1074 := by
  refine hb.normal.resolve_left fun hnormal => ?_
  have := (zpow_lt_zpow_iff_right₀ one_lt_two).1 ((h.zpow_le hnormal).trans_lt hlt)
  omega

/-- A number's size in bits is that of its part before the point. -/
theorem zpow_log2_bounds {mantissa : ℕ} (hmantissa : mantissa ≠ 0) {exponent : ℤ}
    (hlow : mantissa * 2 ^ exponent ≤ x) (hhigh : x < (mantissa + 1) * 2 ^ exponent) :
    2 ^ (mantissa.log2 + exponent) ≤ x ∧ x < 2 ^ (mantissa.log2 + exponent + 1) := by
  have hpow : (0 : ℚ) < 2 ^ exponent := by positivity
  constructor
  · refine le_trans ?_ hlow
    rw [zpow_add₀ two_ne_zero, zpow_natCast]
    refine mul_le_mul_of_nonneg_right ?_ hpow.le
    exact_mod_cast Nat.log2_self_le hmantissa
  · refine lt_of_lt_of_le hhigh ?_
    rw [add_right_comm, zpow_add₀ two_ne_zero]
    refine mul_le_mul_of_nonneg_right ?_ hpow.le
    exact_mod_cast Nat.lt_log2_self

/-- **The exponent of the result** is the double's own, or one less just below a
power of two. The second case ends in a carry (`shiftToTargetExponent_carry`). -/
theorem Rounds.target_cases (h : b.Rounds x) (hb : b.IsUnbounded) {mantissa : ℕ} {exponent : ℤ}
    (hlow : mantissa * 2 ^ exponent ≤ x) (hhigh : x < (mantissa + 1) * 2 ^ exponent)
    (hexponent : exponent ≤ target mantissa exponent) :
    target mantissa exponent = b.exponent ∨
      (target mantissa exponent = b.exponent - 1 ∧ b.significand = 2 ^ 52 ∧
        -1074 < b.exponent ∧ x < b.toRat) := by
  have hmin := hb.le_exponent
  unfold target at hexponent ⊢
  -- without bits before the point only the smallest exponent is low enough
  by_cases hmantissa : mantissa = 0
  · subst hmantissa
    rw [Nat.cast_zero, zero_add, one_mul] at hhigh
    have hzero : Nat.log2 0 = 0 := rfl
    have hle : exponent ≤ b.exponent := by omega
    have hexponent' := h.exponent_eq hb
      (hhigh.trans_le ((zpow_le_zpow_iff_right₀ one_lt_two).2 hle))
    left
    omega
  · obtain ⟨hlower, hupper⟩ := zpow_log2_bounds hmantissa hlow hhigh
    have hle : (mantissa.log2 : ℤ) + exponent < b.exponent + 53 :=
      (zpow_lt_zpow_iff_right₀ one_lt_two).1 (hlower.trans_lt (h.lt_zpow hb))
    -- the size of the number fixes the exponent, unless it is cut off at the smallest one
    by_cases hsmall : b.exponent = -1074
    · left
      omega
    · have hnormal : 2 ^ 52 ≤ b.significand := hb.normal.resolve_right hsmall
      rcases h.zpow_le_or hnormal with hlarge | ⟨hpower, hbelow⟩
      · have hge : b.exponent + 52 < mantissa.log2 + exponent + 1 :=
          (zpow_lt_zpow_iff_right₀ one_lt_two).1 (hlarge.trans_lt hupper)
        left
        omega
      · have hge : b.exponent + 51 < mantissa.log2 + exponent + 1 :=
          (zpow_lt_zpow_iff_right₀ one_lt_two).1 ((h.zpow_le hnormal).trans_lt hupper)
        have hlt : (mantissa.log2 : ℤ) + exponent < b.exponent + 52 :=
          (zpow_lt_zpow_iff_right₀ one_lt_two).1
            (toRat_of_eq hpower ▸ hlower.trans_lt hbelow)
        right
        exact ⟨by omega, hpower, by omega, hbelow⟩

/-! ## Rounding

Both cases of `Rounds.target_cases` are followed through the two shifts. After
a carry the significand is a power of two, and its second shift leaves no bit
behind (`shiftToTargetExponent_carry`). -/

/-- In its own units a number that rounds to a double is rounded to its
significand. -/
theorem Rounds.roundedMantissa_eq (h : b.Rounds x)
    {extended : ExtendedMantissa} (happrox : Approximates extended (x / 2 ^ b.exponent)) :
    extended.roundedMantissa = b.significand := by
  have hpow : (0 : ℚ) < 2 ^ b.exponent := by positivity
  have hbelow := b.below_le
  have hlow : b.significand - b.below ≤ x / 2 ^ b.exponent := (le_div_iff₀ hpow).2 h.lowest_le
  have hhigh : x / 2 ^ b.exponent ≤ b.significand + 1 / 2 := (div_le_iff₀ hpow).2 h.le_highest
  refine happrox.roundedMantissa_eq (by linarith) hhigh fun hodd => ?_
  unfold Rounds at h
  rw [if_neg (by omega)] at h
  have hlow' : b.significand - b.below < x / 2 ^ b.exponent := (lt_div_iff₀ hpow).2 h.1
  exact ⟨by linarith, (div_lt_iff₀ hpow).2 h.2⟩

/-- Just below a power of two, where the units are half as large, a number is
rounded up to it. -/
theorem Rounds.roundedMantissa_below (h : b.Rounds x) (hpower : b.significand = 2 ^ 52)
    (hexponent : -1074 < b.exponent) (hx : x < b.toRat)
    {extended : ExtendedMantissa} (happrox : Approximates extended (x / 2 ^ (b.exponent - 1))) :
    extended.roundedMantissa = 2 ^ 53 := by
  have hpow : (0 : ℚ) < 2 ^ (b.exponent - 1) := by positivity
  have hunit : (2 : ℚ) ^ b.exponent = 2 * 2 ^ (b.exponent - 1) := by
    rw [zpow_sub_one₀ two_ne_zero]
    ring
  have hbelow : b.below = 1 / 4 := if_pos ⟨hpower, hexponent⟩
  have hlow := h.lowest_le
  unfold lowest at hlow
  unfold toRat at hx
  rw [hpower, hbelow, hunit] at hlow
  rw [hpower, hunit] at hx
  push_cast at hlow hx
  refine happrox.roundedMantissa_eq ?_ ?_ fun hodd => absurd hodd (by norm_num)
  · rw [le_div_iff₀ hpow]
    push_cast
    linarith
  · rw [div_le_iff₀ hpow]
    push_cast
    linarith

/-- The two shifts of rounding: one to the exponent of the result, and another
one after a carry. -/
theorem roundWithAccuracy_of_shifts {mantissa significand : ℕ} {exponent e₁ e₂ : ℤ}
    {accuracy : Accuracy} {extended : ExtendedMantissa}
    (hfirst : shiftToTargetExponent Format.binary64 mantissa exponent accuracy = (extended, e₁))
    (hsecond : shiftToTargetExponent Format.binary64 extended.roundedMantissa e₁ .exact
      = (⟨significand, false, false⟩, e₂))
    (hpos : 0 < significand) :
    roundWithAccuracy Format.binary64 .positive mantissa exponent accuracy
      = .finite .positive significand e₂ hpos := by
  unfold roundWithAccuracy
  rw [hfirst]
  dsimp only
  rw [hsecond]
  exact dif_neg hpos.ne'

theorem IsUnbounded.shiftToTargetExponent_eq (hb : b.IsUnbounded) :
    shiftToTargetExponent Format.binary64 b.significand b.exponent .exact
      = (⟨b.significand, false, false⟩, b.exponent) := by
  rw [Number.shiftToTargetExponent_eq _ _ hb.target_eq.ge, hb.target_eq, sub_self]
  rfl

/-- A carry is shifted once more. -/
theorem shiftToTargetExponent_carry {exponent : ℤ} (h : -1074 < exponent) :
    shiftToTargetExponent Format.binary64 (2 ^ 53) (exponent - 1) .exact
      = (⟨2 ^ 52, false, false⟩, exponent) := by
  have htarget : target (2 ^ 53) (exponent - 1) = exponent := by
    unfold target
    rw [Nat.log2_two_pow]
    omega
  rw [Number.shiftToTargetExponent_eq _ _ (by rw [htarget]; omega), htarget, sub_sub_cancel]
  rfl

/-- A number that is approximated is between two whole numbers of units. -/
theorem mantissa_bounds {mantissa : ℕ} {exponent : ℤ} {accuracy : Accuracy}
    (h : Approximates (ExtendedMantissa.ofMantissaAndAccuracy mantissa accuracy)
      (x / 2 ^ exponent)) :
    mantissa * 2 ^ exponent ≤ x ∧ x < (mantissa + 1) * 2 ^ exponent := by
  have hpow : (0 : ℚ) < 2 ^ exponent := by positivity
  have hmantissa :
      (ExtendedMantissa.ofMantissaAndAccuracy mantissa accuracy).mantissa = mantissa := by
    rcases accuracy with _ | _ | _ | _ <;> rfl
  obtain ⟨hfloor, hceil⟩ := h.bounds
  rw [hmantissa] at hfloor hceil
  exact ⟨(le_div_iff₀ hpow).1 hfloor, (div_lt_iff₀ hpow).1 hceil⟩

/-- **A number is still approximated** in the units of the result, once the bits
below are shifted out. -/
theorem approximates_target {mantissa : ℕ} {exponent : ℤ} {accuracy : Accuracy}
    (h : Approximates (ExtendedMantissa.ofMantissaAndAccuracy mantissa accuracy)
      (x / 2 ^ exponent))
    (hexponent : exponent ≤ target mantissa exponent) :
    Approximates (ExtendedMantissa.ofMantissaAndAccuracy mantissa accuracy
      >>> (target mantissa exponent - exponent).toNat) (x / 2 ^ target mantissa exponent) := by
  have hshift := h.shiftRight (target mantissa exponent - exponent).toNat
  rwa [div_div, ← zpow_natCast, Int.toNat_of_nonneg (sub_nonneg.2 hexponent),
    ← zpow_add₀ two_ne_zero, add_sub_cancel] at hshift

/-- **A number that rounds to a double is rounded to it.** The two cases are
those of `Rounds.target_cases`: in its own units it is rounded to the
significand, and just below a power of two there is a carry. -/
theorem Rounds.roundWithAccuracy_eq (h : b.Rounds x) (hb : b.IsUnbounded) {mantissa : ℕ}
    {exponent : ℤ} {accuracy : Accuracy}
    (happrox : Approximates (ExtendedMantissa.ofMantissaAndAccuracy mantissa accuracy)
      (x / 2 ^ exponent))
    (hexponent : exponent ≤ target mantissa exponent) :
    roundWithAccuracy Format.binary64 .positive mantissa exponent accuracy
      = .finite .positive b.significand b.exponent hb.pos := by
  obtain ⟨hfloor, hceil⟩ := mantissa_bounds happrox
  have hshift := approximates_target happrox hexponent
  have hfirst := shiftToTargetExponent_eq mantissa accuracy hexponent
  rcases h.target_cases hb hfloor hceil hexponent with heq | ⟨heq, hpower, hmin, hx⟩
  · rw [heq] at hshift
    refine roundWithAccuracy_of_shifts hfirst ?_ hb.pos
    rw [heq, h.roundedMantissa_eq hshift]
    exact hb.shiftToTargetExponent_eq
  · rw [heq] at hshift
    refine roundWithAccuracy_of_shifts hfirst ?_ hb.pos
    rw [heq, h.roundedMantissa_below hpower hmin hx hshift, hpower]
    exact shiftToTargetExponent_carry hmin

/-! ## Roundings

Products, quotients and decimals are all computed as a mantissa with the two
bits after it. `IsRounding` is what the operations have in common, and its
three results are what the rest of the library uses of them. -/

/-- **A value is a number rounded**: it is computed from enough bits of the
number, and the two bits after them. It is all there is to know of an operation
on doubles. -/
def IsRounding (u : UnpackedFloat) (x : ℚ) : Prop :=
  ∃ mantissa exponent accuracy,
    u = roundWithAccuracy Format.binary64 .positive mantissa exponent accuracy ∧
      Approximates (ExtendedMantissa.ofMantissaAndAccuracy mantissa accuracy) (x / 2 ^ exponent) ∧
      exponent ≤ target mantissa exponent

/-- **A rounding is the double** that the number rounds to. -/
theorem IsRounding.eq_finite {u : UnpackedFloat} (h : IsRounding u x) (hb : b.IsUnbounded)
    (hx : b.Rounds x) : u = .finite .positive b.significand b.exponent hb.pos := by
  obtain ⟨mantissa, exponent, accuracy, rfl, happrox, hexponent⟩ := h
  exact hx.roundWithAccuracy_eq hb happrox hexponent

/-- **A rounding is zero** when the number is at most half of the smallest
unit. -/
theorem IsRounding.eq_zero {u : UnpackedFloat} (h : IsRounding u x)
    (hx : x ≤ 2 ^ (-1075 : ℤ)) : u = .zero .positive := by
  obtain ⟨mantissa, exponent, accuracy, rfl, happrox, hexponent⟩ := h
  have hshift := approximates_target happrox hexponent
  -- a value this small is rounded at the least exponent
  have htarget : target mantissa exponent = -1074 := by
    unfold target at hexponent ⊢
    by_cases hmantissa : mantissa = 0
    · subst hmantissa
      have hzero : Nat.log2 0 = 0 := rfl
      omega
    · obtain ⟨hfloor, hceil⟩ := mantissa_bounds happrox
      have hle := (zpow_le_zpow_iff_right₀ one_lt_two).1
        ((zpow_log2_bounds hmantissa hfloor hceil).1.trans hx)
      omega
  have hfirst := shiftToTargetExponent_eq mantissa accuracy hexponent
  rw [htarget] at hshift hfirst
  have hpow : (0 : ℚ) < 2 ^ (-1074 : ℤ) := by positivity
  have hnonneg : 0 ≤ x / 2 ^ (-1074 : ℤ) := (Nat.cast_nonneg _).trans hshift.bounds.1
  have hhalf : x / 2 ^ (-1074 : ℤ) ≤ 1 / 2 := by
    rw [div_le_iff₀ hpow]
    refine hx.trans_eq ?_
    rw [show (-1075 : ℤ) = -1 + -1074 from rfl, zpow_add₀ two_ne_zero]
    norm_num
  have hrounded : ExtendedMantissa.roundedMantissa _ = 0 :=
    hshift.roundedMantissa_eq (by rw [Nat.cast_zero]; linarith) (by rw [Nat.cast_zero]; linarith)
      fun hodd => absurd hodd (by decide)
  unfold roundWithAccuracy
  rw [hfirst]
  dsimp only
  rw [hrounded]
  rfl

/-- **A product** is a whole number of units, so no further bits are left out. -/
theorem isRounding_mul {m₁ m₂ : ℕ} {e₁ e₂ : ℤ} (h₁ : 0 < m₁) (h₂ : 0 < m₂)
    (hexponent : e₁ + e₂ ≤ target (m₁ * m₂) (e₁ + e₂)) :
    IsRounding (UnpackedFloat.mul Format.binary64 (.finite .positive m₁ e₁ h₁)
      (.finite .positive m₂ e₂ h₂)) (m₁ * 2 ^ e₁ * (m₂ * 2 ^ e₂)) := by
  refine ⟨m₁ * m₂, e₁ + e₂, .exact, rfl, ?_, hexponent⟩
  show _ = ((m₁ * m₂ : ℕ) : ℚ)
  rw [div_eq_iff (by positivity), zpow_add₀ two_ne_zero]
  push_cast
  ring

/-- The bits after a quotient come from its remainder. -/
theorem approximates_div (n : ℕ) {d : ℕ} (hd : 0 < d) :
    Approximates
      (ExtendedMantissa.ofMantissaAndAccuracy (n / d) (accuracyOfFraction (n % d) d))
      (n / d) := by
  have hpos : (0 : ℚ) < d := Nat.cast_pos.2 hd
  have hlt : ((n % d : ℕ) : ℚ) < d := Nat.cast_lt.2 (Nat.mod_lt n hd)
  have hdiv : (n : ℚ) / d = (n / d : ℕ) + (n % d : ℕ) / d := by
    rw [div_eq_iff hpos.ne', add_mul, div_mul_cancel₀ _ hpos.ne']
    exact_mod_cast (Nat.div_add_mod' n d).symm
  rw [hdiv]
  unfold accuracyOfFraction
  by_cases hzero : n % d = 0
  · rw [if_pos hzero, hzero]
    show ((n / d : ℕ) : ℚ) + (0 : ℕ) / d = (n / d : ℕ)
    rw [Nat.cast_zero, zero_div, add_zero]
  · rw [if_neg hzero]
    have hrest : 0 < ((n % d : ℕ) : ℚ) / d :=
      div_pos (Nat.cast_pos.2 (Nat.pos_of_ne_zero hzero)) hpos
    have hone : ((n % d : ℕ) : ℚ) / d < 1 := (div_lt_one hpos).2 hlt
    -- the accuracy says on which side of one half the rest lies
    rcases lt_trichotomy (2 * (n % d)) d with hhalf | hhalf | hhalf
    · rw [Nat.compare_eq_lt.2 hhalf]
      have hhalf' : ((n % d : ℕ) : ℚ) / d < 1 / 2 := by
        rw [div_lt_iff₀ hpos]
        have : ((2 * (n % d) : ℕ) : ℚ) < d := Nat.cast_lt.2 hhalf
        push_cast at this
        linarith
      exact ⟨lt_add_of_pos_right _ hrest, add_lt_add_right hhalf' _⟩
    · rw [Nat.compare_eq_eq.2 hhalf]
      have hhalf' : ((n % d : ℕ) : ℚ) / d = 1 / 2 := by
        rw [div_eq_iff hpos.ne']
        have : ((2 * (n % d) : ℕ) : ℚ) = d := congrArg _ hhalf
        push_cast at this
        linarith
      exact congrArg (_ + ·) hhalf'
    · rw [Nat.compare_eq_gt.2 hhalf]
      have hhalf' : 1 / 2 < ((n % d : ℕ) : ℚ) / d := by
        rw [lt_div_iff₀ hpos]
        have : (d : ℚ) < (2 * (n % d) : ℕ) := Nat.cast_lt.2 hhalf
        push_cast at this
        linarith
      exact ⟨add_lt_add_right hhalf' _, add_lt_add_right hone _⟩

/-- A quotient whose numerator was shifted far enough has enough bits. -/
theorem le_log2_shiftLeft_div {m₁ m₂ shift : ℕ} (h₁ : 0 < m₁) (h₂ : 0 < m₂)
    (hshift : m₂.log2 + 53 ≤ m₁.log2 + shift) : 52 ≤ ((m₁ <<< shift) / m₂).log2 := by
  have hle : 2 ^ 52 ≤ (m₁ <<< shift) / m₂ := by
    rw [Nat.le_div_iff_mul_le h₂, Nat.shiftLeft_eq]
    calc 2 ^ 52 * m₂ ≤ 2 ^ 52 * 2 ^ (m₂.log2 + 1) := Nat.mul_le_mul_left _ Nat.lt_log2_self.le
      _ = 2 ^ (m₂.log2 + 53) := by rw [← Nat.pow_add]; congr 1; omega
      _ ≤ 2 ^ (m₁.log2 + shift) := Nat.pow_le_pow_right (by decide) hshift
      _ ≤ m₁ * 2 ^ shift := by
        rw [Nat.pow_add]
        exact Nat.mul_le_mul_right _ (Nat.log2_self_le h₁.ne')
  exact (Nat.le_log2 (by omega)).2 hle

/-- **A quotient** has enough bits before its remainder. -/
theorem isRounding_div {m₁ m₂ : ℕ} {e₁ e₂ : ℤ} (h₁ : 0 < m₁) (h₂ : 0 < m₂) :
    IsRounding (UnpackedFloat.div Format.binary64 (.finite .positive m₁ e₁ h₁)
      (.finite .positive m₂ e₂ h₂)) (m₁ * 2 ^ e₁ / (m₂ * 2 ^ e₂)) := by
  -- the exponent the quotient is computed at is named before it is unfolded anywhere
  obtain ⟨exponent, hdef⟩ : ∃ exponent, exponent = min (e₁ - e₂)
      (Format.binary64.targetExponent (totalExponent m₁ e₁ - totalExponent m₂ e₂)) := ⟨_, rfl⟩
  have htarget : exponent
      = min (e₁ - e₂) (max (m₁.log2 + e₁ - (m₂.log2 + e₂) - 53) (-1074)) := by
    rw [hdef]
    show min _ (max (((m₁.log2 : ℤ) + 1 + e₁) - ((m₂.log2 : ℤ) + 1 + e₂) - 53) (-1074)) = _
    omega
  refine ⟨m₁ <<< (e₁ - e₂ - exponent).toNat / m₂, exponent,
    accuracyOfFraction (m₁ <<< (e₁ - e₂ - exponent).toNat % m₂) m₂, by rw [hdef]; rfl, ?_, ?_⟩
  · have hunits : (m₁ : ℚ) * 2 ^ e₁ / (m₂ * 2 ^ e₂) / 2 ^ exponent
        = (m₁ <<< (e₁ - e₂ - exponent).toNat : ℕ) / m₂ := by
      rw [Nat.shiftLeft_eq, Nat.cast_mul, Nat.cast_pow, Nat.cast_ofNat, ← zpow_natCast,
        Int.toNat_of_nonneg (by omega), zpow_sub₀ two_ne_zero, zpow_sub₀ two_ne_zero]
      field_simp
    rw [hunits]
    exact approximates_div _ h₂
  · unfold target
    by_cases hsmall : exponent ≤ -1074
    · omega
    · have hlog : 52 ≤ (m₁ <<< (e₁ - e₂ - exponent).toNat / m₂).log2 :=
        le_log2_shiftLeft_div h₁ h₂ (by omega)
      omega

end Binary

end Worksheet.Number
