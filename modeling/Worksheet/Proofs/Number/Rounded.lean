import Worksheet.Proofs.Number.Order
import Worksheet.Proofs.Number.Size

/-!
# Every decimal is read as the nearest double

A number that is not negative has one nearest double: the double it rounds to,
or zero when it is at most half of the smallest double, or infinity when it is
no nearer to the largest double than to the next power of two (`RoundsTo`). A
decimal is read as that double, whatever its digits and its exponent are
(`Decimal.roundsTo_iff`).

Numbers are rounded as if exponents could be as large as one likes, and it is
seen afterwards whether the result is a double (`Binary.IsUnbounded`). So a
number that is too large needs no rounding of its own.
-/

namespace Worksheet.Number

open Float.Model Float.Model.UnpackedFloat

variable {x : ℚ} {v w : Float}

/-! ## The nearest double

`Binary.Rounds` covers the range of the doubles only. `RoundsTo` adds the two
ends, and by `exists_roundsTo` no number is left without a case. That what is
rounded to is nearest, with the gaps to both neighbours, is
`Rounds.abs_sub_le`. -/

/-- **A number that is not negative rounds to a double**, to the even one of two
that are equally near (`Binary.Rounds`). What is too small rounds to zero, and
what is too large to infinity. -/
inductive RoundsTo (x : ℚ) : Float → Prop
  | double {b : Binary} (hb : b.IsDouble) (h : b.Rounds x) : RoundsTo x hb.toFloat
  | zero (h : x ≤ 2 ^ (-1075 : ℤ)) : RoundsTo x 0
  | infinite (h : Binary.overflow ≤ x) : RoundsTo x infinite

/-- **Every number rounds to some double**, by its size. -/
theorem exists_roundsTo (x : ℚ) : ∃ v, RoundsTo x v := by
  rcases le_or_gt x (2 ^ (-1075 : ℤ)) with hsmall | hlarge
  · exact ⟨0, .zero hsmall⟩
  · obtain ⟨b, hb, hrounds⟩ := Binary.exists_isUnbounded hlarge
    rcases le_or_gt b.exponent 971 with hexponent | hexponent
    · exact ⟨_, .double (hb.isDouble hexponent) hrounds⟩
    · exact ⟨infinite, .infinite (hrounds.overflow_le hb hexponent)⟩

namespace Binary

variable {b b' : Binary}

/-- With too large an exponent a double is infinite: it is seen when it is
packed. -/
theorem IsUnbounded.pack_eq (h : b.IsUnbounded) (hexponent : 971 < b.exponent) :
    Float.ofModel (.pack (.finite .positive b.significand b.exponent h.pos)) = infinite := by
  have hbiased : 2 ^ Format.binary64.exponentBits
      ≤ (b.exponent + (Format.binary64.exponentBias : ℤ)
        + (Format.binary64.mantissaBitsWithoutImplicit : ℤ)).toNat + 1 := by
    show 2 ^ 11 ≤ (b.exponent + (1023 : ℤ) + (52 : ℤ)).toNat + 1
    omega
  refine eq_of_toBits ?_
  rw [toNat_toBits_infinite]
  show (UnpackedFloat.pack Format.binary64 _).toNat = _
  unfold UnpackedFloat.pack
  dsimp only
  rw [if_pos hbiased]
  rfl

theorem one_lt_overflow : 1 < overflow := by
  unfold overflow
  calc (1 : ℚ) < 2 ^ (971 : ℤ) := one_lt_zpow₀ one_lt_two (by decide)
    _ ≤ (2 ^ 53 - 1 / 2) * 2 ^ (971 : ℤ) := le_mul_of_one_le_left (by positivity) (by norm_num)

/-- **What is computed from enough bits of a number** (`IsRounding`) is the
double it rounds to. -/
theorem IsRounding.pack_eq {u : UnpackedFloat} (h : IsRounding u x) (hx : RoundsTo x v) :
    Float.ofModel (.pack u) = v := by
  cases hx with
  | double hb hrounds =>
    rw [h.eq_finite hb.isUnbounded hrounds]
    rfl
  | zero hsmall =>
    rw [h.eq_zero hsmall]
    rfl
  | infinite hlarge =>
    obtain ⟨b, hb, hrounds⟩ : ∃ b : Binary, b.IsUnbounded ∧ b.Rounds x := by
      refine exists_isUnbounded (lt_trans ?_ (one_lt_overflow.trans_le hlarge))
      exact zpow_lt_one_of_neg₀ one_lt_two (by decide)
    have hexponent : 971 < b.exponent := not_le.1 fun hle =>
      absurd (hrounds.lt_overflow (hb.isDouble hle)) (not_lt.2 hlarge)
    rw [h.eq_finite hb hrounds]
    exact hb.pack_eq hexponent

/-- The next smaller double is away by twice what rounds to this one from
below. -/
theorem IsDouble.toRat_add_le (hb : b.IsDouble) (hb' : b'.IsDouble) (h : b'.toRat < b.toRat) :
    b'.toRat + 2 * b.below * 2 ^ b.exponent ≤ b.toRat := by
  have hpow : (0 : ℚ) < 2 ^ b.exponent := by positivity
  have hle : b'.exponent ≤ b.exponent := not_lt.1 fun hlt =>
    absurd (hb.toRat_lt_of_exponent_lt hb' hlt) h.asymm
  unfold toRat at h ⊢
  rw [← le_sub_iff_add_le, ← sub_mul]
  rcases hle.lt_or_eq with hlt | heq
  · have hsmallest := hb'.le_exponent
    have hroom := hb.isUnbounded.below_le_significand (by omega)
    have hbits : (b'.significand : ℚ) ≤ 2 ^ 53 - 1 := by
      have : (b'.significand : ℚ) + 1 ≤ 2 ^ 53 := by exact_mod_cast hb'.lt
      linarith
    calc (b'.significand : ℚ) * 2 ^ b'.exponent ≤ (2 ^ 53 - 1) * 2 ^ (b.exponent - 1) :=
          mul_le_mul hbits (zpow_le_zpow_right₀ one_le_two (by omega)) (by positivity)
            (by norm_num)
      _ = (2 ^ 52 - 1 / 2) * 2 ^ b.exponent := by
          rw [zpow_sub_one₀ two_ne_zero]
          ring
      _ ≤ (b.significand - 2 * b.below) * 2 ^ b.exponent :=
          mul_le_mul_of_nonneg_right (by linarith) hpow.le
  · rw [heq] at h ⊢
    have hnext : (b'.significand : ℚ) + 1 ≤ b.significand := by
      exact_mod_cast Nat.cast_lt.1 (lt_of_mul_lt_mul_right h hpow.le)
    exact mul_le_mul_of_nonneg_right (by linarith [b.below_le]) hpow.le

/-- The next larger double is away by one unit. -/
theorem IsDouble.add_toRat_le (hb : b.IsDouble) (hb' : b'.IsDouble) (h : b.toRat < b'.toRat) :
    b.toRat + 2 ^ b.exponent ≤ b'.toRat := by
  have hpow : (0 : ℚ) < 2 ^ b.exponent := by positivity
  have hle : b.exponent ≤ b'.exponent := not_lt.1 fun hlt =>
    absurd (hb'.toRat_lt_of_exponent_lt hb hlt) h.asymm
  unfold toRat at h ⊢
  rw [← add_one_mul]
  rcases hle.lt_or_eq with hlt | heq
  · have hsmallest := hb.le_exponent
    have hnormal : (2 : ℚ) ^ 52 ≤ b'.significand := by
      exact_mod_cast hb'.normal.resolve_right (by omega)
    have hbits : (b.significand : ℚ) + 1 ≤ 2 ^ 53 := by exact_mod_cast hb.lt
    calc ((b.significand : ℚ) + 1) * 2 ^ b.exponent ≤ 2 ^ 53 * 2 ^ b.exponent :=
          mul_le_mul_of_nonneg_right hbits hpow.le
      _ = 2 ^ 52 * 2 ^ (b.exponent + 1) := by
          rw [zpow_add_one₀ two_ne_zero]
          ring
      _ ≤ b'.significand * 2 ^ b'.exponent :=
          mul_le_mul hnormal (zpow_le_zpow_right₀ one_le_two hlt) (by positivity)
            (Nat.cast_nonneg _)
  · rw [← heq] at h ⊢
    have hnext : (b.significand : ℚ) + 1 ≤ b'.significand := by
      exact_mod_cast Nat.cast_lt.1 (lt_of_mul_lt_mul_right h hpow.le)
    exact mul_le_mul_of_nonneg_right hnext hpow.le

/-- **What rounds to a double has no other one nearer.** The gaps to the doubles
on both sides are at least twice as wide as the interval reaches. -/
theorem Rounds.abs_sub_le (h : b.Rounds x) (hb : b.IsDouble) (hb' : b'.IsDouble) :
    |x - b.toRat| ≤ |x - b'.toRat| := by
  have hlow : b.toRat - b.below * 2 ^ b.exponent ≤ x := by
    have := h.lowest_le
    unfold lowest at this
    rwa [sub_mul] at this
  have hhigh : x ≤ b.toRat + 1 / 2 * 2 ^ b.exponent := by
    have := h.le_highest
    unfold highest at this
    rwa [add_mul] at this
  rcases lt_trichotomy b'.toRat b.toRat with hlt | heq | hgt
  · have hgap := hb.toRat_add_le hb' hlt
    refine le_trans (abs_sub_le_iff.2 ⟨?_, ?_⟩) (le_abs_self _) <;> linarith
  · rw [heq]
  · have hgap := hb.add_toRat_le hb' hgt
    refine le_trans (abs_sub_le_iff.2 ⟨?_, ?_⟩) (neg_le_abs _) <;> linarith

end Binary

/-! ## Decimals

Reading gives up early at both ends (`Decimal.leading`), and what it then
answers is still what rounding would have come to. The three cases of
`RoundsTo` are shown one by one and joined in `roundsTo_iff`. -/

namespace Decimal

variable {d : Decimal}

/-- A decimal of few digits and a small power of ten is neither too small nor
too large. -/
theorem bounds_of_few (hpos : 0 < d.digits) (hdigits : d.digits < 2 ^ 53)
    (hexponent : d.exponent.natAbs ≤ 22) :
    2 ^ (-1075 : ℤ) < d.toRat ∧ d.toRat < Binary.overflow := by
  have hten : (0 : ℚ) < 10 ^ d.exponent := by positivity
  have hone : (1 : ℚ) ≤ d.digits := Nat.one_le_cast.2 hpos
  have hbits : (d.digits : ℚ) ≤ 2 ^ 53 := by exact_mod_cast hdigits.le
  have hlow : (10 : ℚ) ^ (-22 : ℤ) ≤ 10 ^ d.exponent :=
    zpow_le_zpow_right₀ (by norm_num) (by omega)
  have hhigh : (10 : ℚ) ^ d.exponent ≤ 10 ^ (22 : ℤ) :=
    zpow_le_zpow_right₀ (by norm_num) (by omega)
  unfold toRat
  constructor
  · calc (2 : ℚ) ^ (-1075 : ℤ) < 2 ^ (-88 : ℤ) := zpow_lt_zpow_right₀ one_lt_two (by decide)
      _ ≤ 10 ^ (-22 : ℤ) := by norm_num
      _ ≤ 10 ^ d.exponent := hlow
      _ ≤ d.digits * 10 ^ d.exponent := le_mul_of_one_le_left hten.le hone
  · calc (d.digits : ℚ) * 10 ^ d.exponent ≤ 2 ^ 53 * 10 ^ (22 : ℤ) :=
          mul_le_mul hbits hhigh hten.le (by norm_num)
      _ ≤ 2 ^ 52 * 2 ^ (100 : ℤ) := by norm_num
      _ < (2 ^ 53 - 1 / 2) * 2 ^ (971 : ℤ) :=
          mul_lt_mul (by norm_num) (zpow_le_zpow_right₀ one_le_two (by decide)) (by positivity)
            (by norm_num)

/-- **A decimal that is too small is read as zero**, whether the bounds on its
leading digit say so or the rounding does. -/
theorem toFloat_eq_zero (h : d.toRat ≤ 2 ^ (-1075 : ℤ)) : d.toFloat = 0 := by
  rcases Nat.eq_zero_or_pos d.digits with hzero | hpos
  · exact if_pos (.inl hzero)
  by_cases hlow : d.leading < -340
  · exact if_pos (.inr hlow)
  have hhigh : d.leading - 1 < 0 := by
    refine (zpow_lt_zpow_iff_right₀ (by norm_num : (1 : ℚ) < 10)).1 ?_
    calc (10 : ℚ) ^ (d.leading - 1) ≤ 2 ^ (-1075 : ℤ) := (zpow_leading hpos).1.trans h
      _ < 10 ^ (0 : ℤ) := by
          rw [zpow_zero]
          exact zpow_lt_one_of_neg₀ one_lt_two (by decide)
  have hmany : ¬(d.digits < 2 ^ 53 ∧ d.exponent.natAbs ≤ 22) := fun hfew =>
    absurd h (not_le.2 (bounds_of_few hpos hfew.1 hfew.2).1)
  have hrounding := isRounding_ofScientific hpos (not_lt.1 hlow) (by omega)
  rw [toFloat_eq_ofScientific hpos (not_lt.1 hlow) (by omega), ofScientific_of_many d hmany]
  exact hrounding.pack_eq (.zero h)

/-- **A decimal that is too large is read as infinity**, in the same two ways. -/
theorem toFloat_eq_infinite (h : Binary.overflow ≤ d.toRat) : d.toFloat = infinite := by
  have hone := Binary.one_lt_overflow
  have hpos : 0 < d.digits := by
    refine Nat.pos_of_ne_zero fun hzero => ?_
    rw [toRat, hzero, Nat.cast_zero, zero_mul] at h
    linarith
  have hlow : 0 < d.leading := by
    refine (zpow_lt_zpow_iff_right₀ (by norm_num : (1 : ℚ) < 10)).1 ?_
    rw [zpow_zero]
    exact (hone.trans_le h).trans (zpow_leading hpos).2
  by_cases hhigh : 320 < d.leading
  · exact (if_neg (not_or.2 ⟨hpos.ne', not_lt.2 (by unfold leading at hlow; omega)⟩)).trans
      (if_pos hhigh)
  have hmany : ¬(d.digits < 2 ^ 53 ∧ d.exponent.natAbs ≤ 22) := fun hfew =>
    absurd h (not_le.2 (bounds_of_few hpos hfew.1 hfew.2).2)
  have hrounding := isRounding_ofScientific hpos (by omega) (not_lt.1 hhigh)
  rw [toFloat_eq_ofScientific hpos (by omega) (not_lt.1 hhigh), ofScientific_of_many d hmany]
  exact hrounding.pack_eq (.infinite h)

theorem toFloat_eq_of_roundsTo (h : RoundsTo d.toRat v) : d.toFloat = v := by
  cases h with
  | double hb h => exact toFloat_eq hb h
  | zero h => exact toFloat_eq_zero h
  | infinite h => exact toFloat_eq_infinite h

/-- **A decimal is read as the nearest double**, which is the only one it rounds
to; so `Decimal.toFloat` needs no other description. -/
theorem roundsTo_iff : RoundsTo d.toRat v ↔ v = d.toFloat := by
  refine ⟨fun h => (toFloat_eq_of_roundsTo h).symm, ?_⟩
  rintro rfl
  obtain ⟨v, hv⟩ := exists_roundsTo d.toRat
  rwa [toFloat_eq_of_roundsTo hv]

end Decimal

end Worksheet.Number
