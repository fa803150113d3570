import Worksheet.Proofs.Number.Double
import Worksheet.Proofs.Text.Digits

/-!
# Decimals are read to the nearest double

A decimal that rounds to a double is read as that double (`Decimal.toFloat_eq`).
Decimals of few digits are read by multiplying or dividing doubles that are
exact, the others by rounding the exact quotient; the bounds that keep huge
powers of ten from being computed do not get in the way, since whatever rounds
to a double is within them.
-/

namespace Worksheet.Number

open Float.Model Float.Model.UnpackedFloat

/-! ## The leading digit

A decimal with an enormous exponent is given up on before any power of ten is
computed. The bounds on `Decimal.leading` are wide enough that only decimals
far outside the doubles are refused (`leading_bounds`). -/

/-- The decimal exponent after the leading digit. Reading gives up early where
it is out of bounds. -/
def Decimal.leading (d : Decimal) : ℤ :=
  d.exponent + (Nat.toDigits 10 d.digits).length

/-- **A decimal lies between two powers of ten**, told from how many digits
there are. -/
theorem Decimal.zpow_leading {d : Decimal} (hpos : 0 < d.digits) :
    10 ^ (d.leading - 1) ≤ d.toRat ∧ d.toRat < 10 ^ d.leading := by
  have hpow : (0 : ℚ) < 10 ^ d.exponent := by positivity
  have hten : (10 : ℚ) ≠ 0 := by norm_num
  have hlength : 0 < (Nat.toDigits 10 d.digits).length := Nat.length_toDigits_pos
  obtain ⟨hle, hlt⟩ := Text.pow_length_toDigits hpos
  unfold Decimal.leading Decimal.toRat
  constructor
  · rw [add_sub_assoc, zpow_add₀ hten, mul_comm]
    refine mul_le_mul_of_nonneg_right ?_ hpow.le
    rw [← Nat.cast_one, ← Nat.cast_sub hlength, zpow_natCast]
    exact_mod_cast hle
  · rw [zpow_add₀ hten, mul_comm]
    refine mul_lt_mul_of_pos_left ?_ hpow
    rw [zpow_natCast]
    exact_mod_cast hlt

namespace Binary

variable {b : Binary} {x : ℚ}

/-- What rounds to a double is at least half of the smallest one. -/
theorem Rounds.le_of_isDouble (h : b.Rounds x) (hb : b.IsDouble) : 2 ^ (-1075 : ℤ) ≤ x := by
  refine le_trans ?_ h.lowest_le
  have hone : (1 : ℚ) ≤ b.significand := Nat.one_le_cast.2 hb.pos
  have hbelow := b.below_le
  calc (2 : ℚ) ^ (-1075 : ℤ) = 1 / 2 * 2 ^ (-1074 : ℤ) := by
        rw [show (-1075 : ℤ) = -1 + -1074 from rfl, zpow_add₀ two_ne_zero]
        norm_num
    _ ≤ 1 / 2 * 2 ^ b.exponent := by
        refine mul_le_mul_of_nonneg_left ?_ (by norm_num)
        exact (zpow_le_zpow_iff_right₀ one_lt_two).2 hb.le_exponent
    _ ≤ b.lowest := by
        unfold lowest
        exact mul_le_mul_of_nonneg_right (by linarith) (by positivity)

/-- What rounds to a double is less than the power of two after the largest. -/
theorem Rounds.lt_of_isDouble (h : b.Rounds x) (hb : b.IsDouble) : x < 2 ^ (1024 : ℤ) := by
  refine lt_of_lt_of_le (h.lt_zpow hb.isUnbounded) ((zpow_le_zpow_iff_right₀ one_lt_two).2 ?_)
  have := hb.exponent_le
  omega

end Binary

namespace Decimal

variable {b : Binary} {d : Decimal}

theorem digits_pos (hb : b.IsDouble) (h : b.Rounds d.toRat) : 0 < d.digits := by
  refine Nat.pos_of_ne_zero fun hzero => ?_
  have hle := h.le_of_isDouble hb
  rw [toRat, hzero, Nat.cast_zero, zero_mul] at hle
  exact absurd hle (not_le.2 (by positivity))

theorem two_zpow_le (n : ℕ) : (2 : ℚ) ^ (16 * n : ℤ) ≤ 10 ^ (5 * n : ℤ) := by
  rw [zpow_mul, zpow_mul, zpow_natCast, zpow_natCast]
  exact pow_le_pow_left₀ (by positivity) (by norm_num) n

/-- **The leading digit is within bounds** if the decimal rounds to a double, so
those bounds refuse nothing that has one. -/
theorem leading_bounds (hb : b.IsDouble) (h : b.Rounds d.toRat) :
    -340 < d.leading ∧ d.leading ≤ 320 := by
  obtain ⟨hle, hlt⟩ := zpow_leading (digits_pos hb h)
  have hten : (1 : ℚ) < 10 := by norm_num
  -- sixteen bits at a time, so none of the powers is computed
  have hlarge : (2 : ℚ) ^ (1024 : ℤ) ≤ 10 ^ (320 : ℤ) := two_zpow_le 64
  have hsmall : (10 : ℚ) ^ (-340 : ℤ) ≤ 2 ^ (-1075 : ℤ) := by
    rw [zpow_neg, zpow_neg]
    refine inv_anti₀ (by positivity) ?_
    exact (zpow_le_zpow_right₀ one_le_two (by decide)).trans (two_zpow_le 68)
  constructor
  · exact (zpow_lt_zpow_iff_right₀ hten).1
      (hsmall.trans_lt ((h.le_of_isDouble hb).trans_lt hlt))
  · have := (zpow_lt_zpow_iff_right₀ hten).1
      (hle.trans_lt ((h.lt_of_isDouble hb).trans_le hlarge))
    omega

theorem le_log2_shiftLeft_mul (shift : ℕ) {m n : ℕ} (hm : 0 < m) (hn : 0 < n) :
    shift ≤ (m <<< shift * n).log2 := by
  rw [Nat.shiftLeft_eq]
  have hpow : 0 < 2 ^ shift := Nat.two_pow_pos shift
  refine (Nat.le_log2 (Nat.mul_pos (Nat.mul_pos hm hpow) hn).ne').2 ?_
  exact (Nat.le_mul_of_pos_left _ hm).trans (Nat.le_mul_of_pos_right _ hn)

/-- **A decimal is rounded** when its leading digit is within bounds: the exact
quotient has enough bits. -/
theorem isRounding_ofScientific (hpos : 0 < d.digits) (hlow : -340 ≤ d.leading)
    (hhigh : d.leading ≤ 320) :
    Binary.IsRounding (UnpackedFloat.ofScientific Format.binary64 d.digits d.exponent)
      d.toRat := by
  have hlength : 0 < (Nat.toDigits 10 d.digits).length := Nat.length_toDigits_pos
  have hlog := Text.length_toDigits_le_log2 d.digits
  have hten : (0 : ℚ) < 10 := by norm_num
  unfold leading at hlow hhigh
  unfold UnpackedFloat.ofScientific
  rw [dif_neg hpos.ne', if_neg (by show ¬(d.exponent > 2048); omega),
    if_neg (by show ¬(d.exponent < -(2048 + (d.digits.log2 : ℤ))); omega)]
  by_cases hnonneg : 0 ≤ d.exponent
  · rw [if_pos hnonneg]
    -- the significand was given 53 bits to begin with
    have hpower : 0 < 10 ^ d.exponent.toNat := Nat.pow_pos (by decide)
    have htarget : -53 + 0 ≤ target (d.digits <<< 53 * 10 ^ d.exponent.toNat) (-53 + 0) := by
      have hbits := le_log2_shiftLeft_mul 53 hpos hpower
      unfold target
      omega
    have hvalue : d.toRat = (d.digits <<< 53 : ℕ) * 2 ^ (-53 : ℤ)
        * ((10 ^ d.exponent.toNat : ℕ) * 2 ^ (0 : ℤ)) := by
      unfold toRat
      rw [Nat.shiftLeft_eq, zpow_zero, mul_one, zpow_neg, Nat.cast_mul, Nat.cast_pow,
        Nat.cast_ofNat, ← zpow_natCast 2 53, Nat.cast_ofNat,
        mul_inv_cancel_right₀ (by positivity)]
      push_cast
      rw [← zpow_natCast, Int.toNat_of_nonneg hnonneg]
    rw [hvalue]
    exact Binary.isRounding_mul _ hpower htarget
  · rw [if_neg hnonneg]
    have hvalue : d.toRat = d.digits * 2 ^ (0 : ℤ)
        / ((10 ^ (-d.exponent).toNat : ℕ) * 2 ^ (0 : ℤ)) := by
      unfold toRat
      rw [zpow_zero, mul_one, mul_one]
      push_cast
      rw [← zpow_natCast, Int.toNat_of_nonneg (by omega), zpow_neg, div_inv_eq_mul]
    rw [hvalue]
    exact Binary.isRounding_div hpos (Nat.pow_pos (by decide))

end Decimal

/-! ## Exact doubles

Below `2 ^ 53` every whole number is a double, and so is each power of ten in
the table. One product or quotient of two such is rounded once, as exact
arithmetic would be. -/

namespace Binary

/-- The double of a whole number: its bits are shifted up to the first one. -/
def ofNat (n : ℕ) : Binary :=
  ⟨n <<< (52 - n.log2), n.log2 - 52⟩

variable {n : ℕ}

/-- **A whole number of at most 53 bits is a double.** -/
theorem isDouble_ofNat (hpos : 0 < n) (hlt : n < 2 ^ 53) : (ofNat n).IsDouble := by
  have hlog : n.log2 < 53 := (Nat.log2_lt hpos.ne').2 hlt
  have hnormal : 2 ^ 52 ≤ n <<< (52 - n.log2) := by
    rw [Nat.shiftLeft_eq]
    calc 2 ^ 52 = 2 ^ n.log2 * 2 ^ (52 - n.log2) := by
          rw [← Nat.pow_add]
          congr 1
          omega
      _ ≤ n * 2 ^ (52 - n.log2) := Nat.mul_le_mul_right _ (Nat.log2_self_le hpos.ne')
  have hbits : n <<< (52 - n.log2) < 2 ^ 53 := by
    rw [Nat.shiftLeft_eq]
    calc n * 2 ^ (52 - n.log2) < 2 ^ (n.log2 + 1) * 2 ^ (52 - n.log2) :=
          Nat.mul_lt_mul_of_pos_right Nat.lt_log2_self (Nat.two_pow_pos _)
      _ = 2 ^ 53 := by
          rw [← Nat.pow_add]
          congr 1
          omega
  refine ⟨?_, hbits, ?_, ?_, Or.inl hnormal⟩
  · exact (Nat.two_pow_pos 52).trans_le hnormal
  · show -1074 ≤ (n.log2 : ℤ) - 52
    omega
  · show (n.log2 : ℤ) - 52 ≤ 971
    omega

theorem toRat_ofNat (hpos : 0 < n) (hlt : n < 2 ^ 53) : (ofNat n).toRat = n := by
  have hlog : n.log2 < 53 := (Nat.log2_lt hpos.ne').2 hlt
  unfold toRat ofNat
  dsimp only
  rw [Nat.shiftLeft_eq, show (n.log2 : ℤ) - 52 = -((52 - n.log2 : ℕ) : ℤ) by omega, zpow_neg,
    zpow_natCast]
  push_cast
  exact mul_inv_cancel_right₀ (by positivity) _

/-- **A whole number is converted to the double** that `ofNat` gives. -/
theorem toFloat_ofNat (hpos : 0 < n) (hlt : n < 2 ^ 53) :
    n.toUInt64.toFloat = (isDouble_ofNat hpos hlt).toFloat := by
  have hlog : n.log2 < 53 := (Nat.log2_lt hpos.ne').2 hlt
  have h := isDouble_ofNat hpos hlt
  have hnat : n.toUInt64.toNat = n := UInt64.toNat_ofNat_of_lt (hlt.trans (by decide))
  have htarget : Format.binary64.targetExponent (totalExponent n 0) = n.log2 - 52 := by
    rw [targetExponent_eq]
    unfold target
    omega
  have hshift : (0 - ((n.log2 : ℤ) - 52)).toNat = 52 - n.log2 := by omega
  have hround : UnpackedFloat.round Format.binary64 .positive n 0
      = .finite .positive (ofNat n).significand (ofNat n).exponent h.pos := by
    unfold UnpackedFloat.round decreaseExponent
    dsimp only
    rw [htarget, hshift, show (0 : ℤ) - (52 - n.log2 : ℕ) = (ofNat n).exponent by
      show _ = (n.log2 : ℤ) - 52; omega]
    refine (rounds_toRat (ofNat n)).roundWithAccuracy_eq h.isUnbounded ?_ h.isUnbounded.target_eq.ge
    show _ = ((ofNat n).significand : ℚ)
    exact mul_div_cancel_right₀ _ (by positivity)
  -- a positive number is rounded as it is
  have hnormalize : UnpackedFloat.normalize Format.binary64 n 0 .positive
      = UnpackedFloat.round Format.binary64 .positive n 0 := by
    unfold UnpackedFloat.normalize
    rw [Int.compare_eq_gt.2 (Int.natCast_pos.2 hpos)]
    rfl
  show Float.ofModel
    (.pack (UnpackedFloat.normalize Format.binary64 (n.toUInt64.toNat : ℤ) 0 _)) = _
  rw [hnat, hnormalize, hround]
  rfl

end Binary

theorem powersOfTen_eq : ∀ n : Fin Float.exactlyRepresentablePowersOfTen.size,
    let power := Float.exactlyRepresentablePowersOfTen[n.val]
    power.isFinite = true ∧ isSigned power = false ∧ 0 < (magnitude power).significand ∧
      (magnitude power).num = 10 ^ n.val * (magnitude power).den := by
  decide

/-- **The powers of ten in the table are exact.** There are few of them, so each
is looked at. -/
theorem exists_powerOfTen {n : ℕ} (h : n < Float.exactlyRepresentablePowersOfTen.size) :
    ∃ b : Binary, ∃ hb : b.IsDouble, b.toRat = 10 ^ n ∧
      Float.exactlyRepresentablePowersOfTen[n] = hb.toFloat := by
  obtain ⟨hfinite, hsign, hpos, hvalue⟩ := powersOfTen_eq ⟨n, h⟩
  have hdouble := Binary.isDouble_magnitude hfinite hpos
  refine ⟨_, hdouble, ?_, (Binary.toFloat_magnitude hsign hdouble).symm⟩
  rw [Binary.toRat_eq_div, hvalue, div_eq_iff (Nat.cast_ne_zero.2 (Binary.den_pos _).ne')]
  push_cast
  rfl

/-! ## The nearest double

The two ways of reading agree wherever both apply: each rounds the exact value,
and a number rounds to one double only. So `toFloat_eq` does not mention which
one is taken. -/

namespace Decimal

variable {b : Binary} {d : Decimal}

theorem toRat_eq_div (hexponent : d.exponent < 0) :
    d.toRat = d.digits / 10 ^ d.exponent.natAbs := by
  unfold toRat
  rw [← zpow_natCast, Int.ofNat_natAbs_of_nonpos hexponent.le, zpow_neg, div_inv_eq_mul]

theorem toRat_eq_mul (hexponent : ¬d.exponent < 0) :
    d.toRat = d.digits * 10 ^ d.exponent.natAbs := by
  unfold toRat
  rw [← zpow_natCast, Int.natAbs_of_nonneg (not_lt.1 hexponent)]

/-- Few digits and a small power of ten are exact doubles, and one product or
quotient is all that is rounded. -/
theorem ofScientific_of_few {digits exponent : ℕ} (negative : Bool) (hdigits : digits < 2 ^ 53)
    (hexponent : exponent < Float.exactlyRepresentablePowersOfTen.size) :
    Float.ofScientific digits negative exponent
      = if negative then
          digits.toUInt64.toFloat / Float.exactlyRepresentablePowersOfTen[exponent]
        else digits.toUInt64.toFloat * Float.exactlyRepresentablePowersOfTen[exponent] :=
  dif_pos ⟨hdigits, Nat.le_of_lt_succ hexponent⟩

/-- A decimal as it is read when it is not exact in doubles, by rounding the
exact quotient. -/
theorem ofScientific_of_many (d : Decimal)
    (h : ¬(d.digits < 2 ^ 53 ∧ d.exponent.natAbs ≤ 22)) :
    Float.ofScientific d.digits (d.exponent < 0) d.exponent.natAbs
      = .ofModel (.pack (UnpackedFloat.ofScientific Format.binary64 d.digits d.exponent)) := by
  refine (dif_neg h).trans (congrArg (fun e : ℤ => Float.ofModel (.ofScientific d.digits e)) ?_)
  by_cases hnegative : d.exponent < 0
  · rw [if_pos (decide_eq_true hnegative), Int.negOfNat_eq]
    exact neg_eq_iff_eq_neg.2 (Int.ofNat_natAbs_of_nonpos hnegative.le)
  · rw [if_neg (by simpa using hnegative)]
    exact Int.natAbs_of_nonneg (not_lt.1 hnegative)

/-- A decimal whose leading digit is within bounds is read from its digits. -/
theorem toFloat_eq_ofScientific (hpos : 0 < d.digits) (hlow : -340 ≤ d.leading)
    (hhigh : d.leading ≤ 320) :
    d.toFloat = Float.ofScientific d.digits (d.exponent < 0) d.exponent.natAbs := by
  unfold leading at hlow hhigh
  unfold Decimal.toFloat
  dsimp only
  rw [if_neg (by omega), if_neg (by omega)]

/-- **A decimal that rounds to a double is read as it.** With few digits it is
the rounded product or quotient of two exact doubles, and with many the rounded
exact quotient. -/
theorem toFloat_eq (hb : b.IsDouble) (h : b.Rounds d.toRat) : d.toFloat = hb.toFloat := by
  obtain ⟨hlow, hhigh⟩ := leading_bounds hb h
  have hpos := digits_pos hb h
  rw [toFloat_eq_ofScientific hpos hlow.le hhigh]
  by_cases hfew : d.digits < 2 ^ 53 ∧ d.exponent.natAbs ≤ 22
  · have hsize : d.exponent.natAbs < Float.exactlyRepresentablePowersOfTen.size :=
      Nat.lt_succ_of_le hfew.2
    obtain ⟨power, hpower, hvalue, hentry⟩ := exists_powerOfTen hsize
    have hdigits := Binary.isDouble_ofNat hpos hfew.1
    rw [ofScientific_of_few _ hfew.1 hsize, Binary.toFloat_ofNat hpos hfew.1, hentry]
    by_cases hnegative : d.exponent < 0
    · rw [if_pos (decide_eq_true hnegative)]
      refine hb.div_eq hdigits hpower ?_
      rwa [Binary.toRat_ofNat hpos hfew.1, hvalue, ← toRat_eq_div hnegative]
    · rw [if_neg (by simpa using hnegative)]
      refine hb.mul_eq hdigits hpower ?_
      rwa [Binary.toRat_ofNat hpos hfew.1, hvalue, ← toRat_eq_mul hnegative]
  · have hrounding := isRounding_ofScientific hpos hlow.le hhigh
    rw [ofScientific_of_many d hfew, hrounding.eq_finite hb.isUnbounded h]
    rfl

end Decimal

end Worksheet.Number
