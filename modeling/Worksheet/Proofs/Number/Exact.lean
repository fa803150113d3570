import Mathlib.Algebra.Order.Floor.Semifield
import Mathlib.Data.Rat.Floor
import Worksheet.Proofs.Number.Nan
import Worksheet.Proofs.Number.Scaling

/-!
# The numbers that doubles stand for

A finite double without a sign stands for one number (`Represents`), and doubles
are in the order of the numbers (`Represents.lt_iff`). Sums aside, arithmetic
gives the double that the exact result rounds to (`Represents.sub`,
`Represents.mul`, `Represents.div`), and rounding keeps what doubles are on
either side of it (`RoundsTo.le_of_le`, `RoundsTo.le_of_ge`).

So nothing is lost where the exact result has no more than 53 bits
(`RoundsTo.represents`): whole numbers up to there are exact
(`represents_ofNat`), and so is the fractional part of every number
(`Represents.fract`).
-/

namespace Worksheet.Number

open Float.Model Float.Model.UnpackedFloat Binary

variable {v w : Float} {x y : ℚ} {b b₁ b₂ : Binary}

/-- **A double stands for a number**: it is finite and has no sign, and the
number is that of its magnitude. No number is that of the negative zero. -/
structure Represents (v : Float) (x : ℚ) : Prop where
  /-- It is finite. -/
  isFinite : v.isFinite = true
  /-- It has no sign. -/
  isSigned : isSigned v = false
  /-- It is of the size of the number. -/
  toRat : (magnitude v).toRat = x

namespace Represents

theorem zero : Represents 0 0 :=
  ⟨by decide, by decide, by
    rw [Binary.toRat, show (magnitude 0).significand = 0 by decide, Nat.cast_zero, zero_mul]⟩

theorem toFloat (hb : b.IsDouble) : Represents hb.toFloat b.toRat :=
  ⟨hb.isFinite_toFloat, hb.isSigned_toFloat, by rw [hb.magnitude_toFloat]⟩

theorem zero_or (h : Represents v x) :
    v = 0 ∧ x = 0 ∨ ∃ (b : Binary) (hb : b.IsDouble), v = hb.toFloat ∧ x = b.toRat := by
  rcases eq_zero_or_exists_toFloat h.isFinite h.isSigned with rfl | ⟨hb, hv⟩
  · exact .inl ⟨rfl, h.toRat.symm.trans zero.toRat⟩
  · exact .inr ⟨_, hb, hv, h.toRat.symm⟩

theorem nonneg (h : Represents v x) : 0 ≤ x := by
  rcases h.zero_or with ⟨-, rfl⟩ | ⟨b, hb, -, rfl⟩
  · exact le_rfl
  · exact hb.toRat_pos.le

theorem exists_toFloat (h : Represents v x) (hpos : 0 < x) :
    ∃ (b : Binary) (hb : b.IsDouble), v = hb.toFloat ∧ x = b.toRat :=
  h.zero_or.resolve_left fun hzero => hpos.ne' hzero.2

theorem lt_overflow (h : Represents v x) : x < overflow :=
  h.toRat ▸ toRat_magnitude_lt_overflow h.isFinite

theorem compare_eq (hv : Represents v x) (hw : Represents w y) :
    UnpackedFloat.compare v.toModel.unpack w.toModel.unpack = some (compare x y) := by
  rcases hv.zero_or with ⟨rfl, rfl⟩ | ⟨b₁, h₁, rfl, rfl⟩
  · rcases hw.zero_or with ⟨rfl, rfl⟩ | ⟨b₂, h₂, rfl, rfl⟩
    · rw [compare_eq_iff_eq.2 rfl]
      rfl
    · rw [compare_lt_iff_lt.2 h₂.toRat_pos, h₂.unpack_toFloat]
      rfl
  · rcases hw.zero_or with ⟨rfl, rfl⟩ | ⟨b₂, h₂, rfl, rfl⟩
    · rw [compare_gt_iff_gt.2 h₁.toRat_pos, h₁.unpack_toFloat]
      rfl
    · exact h₁.compare_toFloat h₂

/-- **Doubles are in the order of the numbers** they stand for. -/
theorem lt_iff (hv : Represents v x) (hw : Represents w y) : v < w ↔ x < y := by
  rw [lt_iff_compare, hv.compare_eq hw, Option.some.injEq, compare_lt_iff_lt]

theorem le_iff (hv : Represents v x) (hw : Represents w y) : v ≤ w ↔ x ≤ y := by
  rw [le_iff_compare, hv.compare_eq hw, Option.any_some, Ordering.isLE_iff_ne_gt,
    compare_gt_iff_gt]
  exact not_lt

theorem eq_zero (h : Represents v 0) : v = 0 :=
  h.zero_or.elim And.left fun ⟨_, hb, _, hzero⟩ => absurd hzero hb.toRat_pos.ne

end Represents

/-- A finite number that is not below zero stands for one, or is the negative
zero. -/
theorem eq_neg_zero_or_represents (hfinite : v.isFinite = true) (h : 0 ≤ v) :
    v = -0 ∨ ∃ x, Represents v x := by
  cases hsigned : isSigned v with
  | false => exact .inr ⟨_, hfinite, hsigned, rfl⟩
  | true =>
    left
    rcases Nat.eq_zero_or_pos (magnitude v).significand with hnone | hpos
    · refine (eq_zero_or_of_significand hnone).resolve_left ?_
      rintro rfl
      exact absurd hsigned (by decide)
    · have hb := isDouble_magnitude hfinite hpos
      have hv := withSign_magnitude hb
      rw [signOf_eq, if_pos hsigned] at hv
      rw [le_iff_compare, ← hv, hb.unpack_withSign] at h
      cases h

theorem isFinite_of_lt_one (hnonneg : 0 ≤ v) (hlt : v < 1) : v.isFinite = true := by
  rw [le_iff_compare] at hnonneg
  rw [lt_iff_compare] at hlt
  show v.toModel.unpack.isFinite = true
  generalize v.toModel.unpack = u at hnonneg hlt
  cases u with
  | notANumber => cases hlt
  | infinity sign =>
    cases sign with
    | positive => cases hlt
    | negative => cases hnonneg
  | zero | finite => rfl

/-! ## Numbers of few bits

A number is a double when it has few enough bits and its exponent is in range.
The lemma is used for whole numbers, for units and for differences. -/

/-- **A number of at most 53 bits is a double**, with an exponent within the
range. Its bits are shifted up to the first one, or to the smallest exponent. -/
theorem exists_isDouble {n : ℕ} {e : ℤ} (hpos : 0 < n) (hlt : n < 2 ^ 53) (hlow : -1074 ≤ e)
    (hhigh : e ≤ 971) : ∃ b : Binary, b.IsDouble ∧ b.toRat = n * 2 ^ e := by
  have hlog : n.log2 < 53 := (Nat.log2_lt hpos.ne').2 hlt
  -- the bits are shifted up to the first one, or as far as the exponents reach
  obtain ⟨shift, hshift⟩ : ∃ shift, shift = min (52 - n.log2) (e + 1074).toNat := ⟨_, rfl⟩
  refine ⟨⟨n * 2 ^ shift, e - shift⟩, ⟨Nat.mul_pos hpos (Nat.two_pow_pos _), ?_, ?_, ?_, ?_⟩, ?_⟩
  · calc n * 2 ^ shift < 2 ^ (n.log2 + 1) * 2 ^ shift :=
          Nat.mul_lt_mul_of_pos_right Nat.lt_log2_self (Nat.two_pow_pos _)
      _ = 2 ^ (n.log2 + 1 + shift) := (Nat.pow_add _ _ _).symm
      _ ≤ 2 ^ 53 := Nat.pow_le_pow_right (by decide) (by omega)
  · dsimp only
    omega
  · dsimp only
    omega
  · dsimp only
    rcases le_total (52 - n.log2) (e + 1074).toNat with hfew | hmany
    · left
      calc 2 ^ 52 = 2 ^ (n.log2 + shift) := by congr 1; omega
        _ = 2 ^ n.log2 * 2 ^ shift := Nat.pow_add _ _ _
        _ ≤ n * 2 ^ shift := Nat.mul_le_mul_right _ (Nat.log2_self_le hpos.ne')
    · right
      omega
  · unfold Binary.toRat
    dsimp only
    rw [zpow_sub₀ two_ne_zero, zpow_natCast]
    push_cast
    field_simp

/-! ## Rounding keeps the order

Doubles round to themselves and rounding is monotone, so bounds that are
doubles are kept by it. -/

namespace RoundsTo

/-- **A number below a double** does not round to anything above it. -/
theorem le_of_le {z : ℚ} (h : RoundsTo x v) (hv : Represents v y) (hw : Represents w z)
    (hle : x ≤ z) : y ≤ z := by
  cases h with
  | zero hsmall =>
    rw [← hv.toRat, Represents.zero.toRat]
    exact hw.nonneg
  | infinite hlarge => exact absurd (hlarge.trans hle) (not_le.2 hw.lt_overflow)
  | double hb hrounds =>
    have hpos : (0 : ℚ) < 2 ^ (-1075 : ℤ) := by positivity
    obtain ⟨b', hb', -, rfl⟩ :=
      hw.exists_toFloat ((hpos.trans_le (hrounds.le_of_isDouble hb)).trans_le hle)
    rw [← hv.toRat, hb.magnitude_toFloat]
    have hnearest := hrounds.abs_sub_le hb hb'
    by_contra hlt
    rw [abs_of_nonpos (by linarith), abs_of_nonpos (by linarith)] at hnearest
    linarith

/-- **A number above a double** does not round to anything below it. -/
theorem le_of_ge {z : ℚ} (h : RoundsTo x v) (hv : Represents v y) (hw : Represents w z)
    (hle : z ≤ x) : z ≤ y := by
  rcases hw.zero_or with ⟨-, rfl⟩ | ⟨b', hb', -, rfl⟩
  · exact hv.nonneg
  cases h with
  | zero hsmall =>
    refine absurd (hb'.zpow_le_toRat.trans (hle.trans hsmall)) (not_le.2 ?_)
    exact zpow_lt_zpow_right₀ one_lt_two (by decide)
  | infinite hlarge =>
    exact absurd (hv.isFinite.symm.trans isFinite_infinite) (by decide)
  | double hb hrounds =>
    rw [← hv.toRat, hb.magnitude_toFloat]
    have hnearest := hrounds.abs_sub_le hb hb'
    by_contra hlt
    rw [abs_of_nonneg (by linarith), abs_of_nonneg (by linarith)] at hnearest
    linarith

theorem exists_represents (h : RoundsTo x v) (hlt : x < overflow) : ∃ y, Represents v y := by
  have hfinite := h.isFinite_iff.2 hlt
  cases h with
  | double hb => exact ⟨_, .toFloat hb⟩
  | zero => exact ⟨_, .zero⟩
  | infinite hlarge => exact absurd hlarge (not_le.2 hlt)

/-- **What a double stands for rounds to it.** -/
theorem represents_of_represents (h : RoundsTo x v) (hw : Represents w x) : Represents v x := by
  obtain ⟨y, hv⟩ := h.exists_represents hw.lt_overflow
  obtain rfl := le_antisymm (h.le_of_le hv hw le_rfl) (h.le_of_ge hv hw le_rfl)
  exact hv

/-- **A number of at most 53 bits is rounded without loss.** There is a double
for it, and it rounds to that one. -/
theorem represents {n : ℕ} {e : ℤ} (h : RoundsTo (n * 2 ^ e) v) (hlt : n < 2 ^ 53)
    (hlow : -1074 ≤ e) (hhigh : e ≤ 971) : Represents v (n * 2 ^ e) := by
  rcases Nat.eq_zero_or_pos n with rfl | hpos
  · refine h.represents_of_represents (w := 0) ?_
    rw [Nat.cast_zero, zero_mul]
    exact .zero
  · obtain ⟨b, hb, hvalue⟩ := exists_isDouble hpos hlt hlow hhigh
    rw [← hvalue] at h ⊢
    exact h.represents_of_represents (.toFloat hb)

end RoundsTo

/-! ## Arithmetic

One lemma for each operation, of the same form: what the operation gives for
doubles that stand for `x` and `y` is what the exact result rounds to. -/

/-- **A whole number of units** is rounded from all of its bits. -/
theorem isRounding_round {mantissa : ℕ} (hpos : 0 < mantissa) (exponent : ℤ) :
    IsRounding (UnpackedFloat.round Format.binary64 .positive mantissa exponent)
      (mantissa * 2 ^ exponent) := by
  obtain ⟨shift, hshift⟩ :
    ∃ shift, shift = (exponent - target mantissa exponent).toNat := ⟨_, rfl⟩
  have hround : UnpackedFloat.round Format.binary64 .positive mantissa exponent
      = roundWithAccuracy Format.binary64 .positive (mantissa <<< shift) (exponent - shift)
        .exact := by
    unfold UnpackedFloat.round decreaseExponent
    dsimp only
    rw [targetExponent_eq, ← hshift]
  refine ⟨mantissa <<< shift, exponent - shift, .exact, hround, ?_, ?_⟩
  · show _ = ((mantissa <<< shift : ℕ) : ℚ)
    rw [div_eq_iff (by positivity), Nat.shiftLeft_eq, zpow_sub₀ two_ne_zero, zpow_natCast]
    push_cast
    field_simp
  · have hlog : mantissa.log2 + shift ≤ (mantissa <<< shift).log2 := by
      rw [Nat.shiftLeft_eq, Nat.le_log2 (Nat.mul_pos hpos (Nat.two_pow_pos _)).ne', Nat.pow_add]
      exact Nat.mul_le_mul_right _ (Nat.log2_self_le hpos.ne')
    unfold target at hshift ⊢
    omega

/-- **The difference of two doubles** is a whole number of the smaller units,
and is rounded from it. -/
theorem Binary.IsDouble.roundsTo_sub (h₁ : b₁.IsDouble) (h₂ : b₂.IsDouble)
    (hle : b₂.toRat ≤ b₁.toRat) :
    RoundsTo (b₁.toRat - b₂.toRat) (h₁.toFloat - h₂.toFloat) := by
  obtain ⟨unit, hunit⟩ : ∃ unit, unit = min b₁.exponent b₂.exponent := ⟨_, rfl⟩
  obtain ⟨n₁, hn₁⟩ : ∃ n₁, n₁ = b₁.significand <<< (b₁.exponent - unit).toNat := ⟨_, rfl⟩
  obtain ⟨n₂, hn₂⟩ : ∃ n₂, n₂ = b₂.significand <<< (b₂.exponent - unit).toNat := ⟨_, rfl⟩
  have hpow : (0 : ℚ) < 2 ^ unit := by positivity
  -- both numbers in the smaller of their units, where the difference is one of
  -- whole numbers
  have hunits : ∀ {b : Binary}, unit ≤ b.exponent →
      b.toRat = (b.significand <<< (b.exponent - unit).toNat : ℕ) * 2 ^ unit := by
    intro b hb
    rw [Nat.shiftLeft_eq, Nat.cast_mul, Nat.cast_pow, Nat.cast_ofNat, ← zpow_natCast,
      Int.toNat_of_nonneg (by omega), mul_assoc, ← zpow_add₀ two_ne_zero, sub_add_cancel]
    rfl
  have hvalue₁ := hunits (b := b₁) (by omega)
  have hvalue₂ := hunits (b := b₂) (by omega)
  rw [← hn₁] at hvalue₁
  rw [← hn₂] at hvalue₂
  have hsub : h₁.toFloat - h₂.toFloat = .ofModel (.pack
      (UnpackedFloat.normalize Format.binary64 ((n₁ : ℤ) - n₂) unit .positive)) := by
    show Float.ofModel (.pack (UnpackedFloat.sub Format.binary64
      h₁.toFloat.toModel.unpack h₂.toFloat.toModel.unpack)) = _
    rw [h₁.unpack_toFloat, h₂.unpack_toFloat, hn₁, hn₂, hunit]
    rfl
  rw [hvalue₁, hvalue₂] at hle ⊢
  have hle' : n₂ ≤ n₁ := Nat.cast_le.1 (le_of_mul_le_mul_right hle hpow)
  rw [← sub_mul, ← Nat.cast_sub hle', hsub]
  unfold UnpackedFloat.normalize
  rcases hle'.lt_or_eq with hlt | rfl
  · obtain ⟨v, hv⟩ := exists_roundsTo ((n₁ - n₂ : ℕ) * 2 ^ unit)
    have hpos : 0 < n₁ - n₂ := Nat.sub_pos_of_lt hlt
    rw [Int.compare_eq_gt.2 (by omega)]
    dsimp only
    rw [show ((n₁ : ℤ) - n₂).toNat = n₁ - n₂ by omega, (isRounding_round hpos unit).pack_eq hv]
    exact hv
  · rw [Int.compare_eq_eq.2 (by omega), Nat.sub_self, Nat.cast_zero, zero_mul]
    exact .zero (by positivity)

namespace Represents

/-- **A difference** is the double that the exact one rounds to. -/
theorem sub (hv : Represents v x) (hw : Represents w y) (hle : y ≤ x) :
    RoundsTo (x - y) (v - w) := by
  rcases hw.zero_or with ⟨rfl, rfl⟩ | ⟨b₂, h₂, rfl, rfl⟩
  · rw [sub_zero]
    rcases hv.zero_or with ⟨rfl, rfl⟩ | ⟨b₁, h₁, rfl, rfl⟩
    · rw [show (0 - 0 : Float) = 0 by decide]
      exact .zero (by positivity)
    · rw [sub_zero_of_isDouble (by rwa [h₁.magnitude_toFloat]) .positive rfl]
      exact .double h₁ b₁.rounds_toRat
  · obtain ⟨b₁, h₁, rfl, rfl⟩ := hv.exists_toFloat (h₂.toRat_pos.trans_le hle)
    exact h₁.roundsTo_sub h₂ hle

/-- **A product** is the double that the exact one rounds to. -/
theorem mul (hv : Represents v x) (hw : Represents w y) : RoundsTo (x * y) (v * w) := by
  rcases hv.zero_or with ⟨rfl, rfl⟩ | ⟨b₁, h₁, rfl, rfl⟩
  · have hzero : (0 : Float) * w = 0 := by
      rcases hw.zero_or with ⟨rfl, -⟩ | ⟨b₂, h₂, rfl, -⟩
      · decide
      · show Float.ofModel (.pack (UnpackedFloat.mul Format.binary64
          (0 : Float).toModel.unpack h₂.toFloat.toModel.unpack)) = _
        rw [h₂.unpack_toFloat]
        rfl
    rw [hzero, zero_mul]
    exact .zero (by positivity)
  · rcases hw.zero_or with ⟨rfl, rfl⟩ | ⟨b₂, h₂, rfl, rfl⟩
    · have hzero : h₁.toFloat * 0 = 0 := by
        show Float.ofModel (.pack (UnpackedFloat.mul Format.binary64
          h₁.toFloat.toModel.unpack (0 : Float).toModel.unpack)) = _
        rw [h₁.unpack_toFloat]
        rfl
      rw [hzero, mul_zero]
      exact .zero (by positivity)
    · exact h₁.roundsTo_mul h₂

/-- **A quotient** is the double that the exact one rounds to. -/
theorem div (hv : Represents v x) (hw : Represents w y) (hpos : 0 < y) :
    RoundsTo (x / y) (v / w) := by
  obtain ⟨b₂, h₂, rfl, rfl⟩ := hw.exists_toFloat hpos
  rcases hv.zero_or with ⟨rfl, rfl⟩ | ⟨b₁, h₁, rfl, rfl⟩
  · rw [zero_div_toFloat, zero_div]
    exact .zero (by positivity)
  · exact h₁.roundsTo_div h₂

end Represents

/-! ## Whole numbers and fractional parts

Cutting a number to a whole one and taking its fractional part lose nothing, as
the results have no more bits than the number. -/

/-- **A whole number** is the double it rounds to, however large it is. -/
theorem roundsTo_ofNat (n : ℕ) : RoundsTo n (Float.ofNat n) := by
  rcases Nat.eq_zero_or_pos n with rfl | hpos
  · rw [show Float.ofNat 0 = 0 by decide, Nat.cast_zero]
    exact .zero (by positivity)
  by_cases hlt : n < 2 ^ 53
  · rw [ofNat_eq_toFloat hpos hlt, ← toRat_ofNat hpos hlt]
    exact .double _ (rounds_toRat _)
  · obtain ⟨v, hv⟩ := exists_roundsTo n
    -- a number of more bits than a double keeps is rounded as a decimal is
    have hrounding : IsRounding (UnpackedFloat.ofScientific Format.binary64 n 0) n := by
      have hpower : 0 < 10 ^ (0 : ℤ).toNat := Nat.pow_pos (by decide)
      have hbits : -53 + 0 ≤ target (n <<< 53 * 10 ^ (0 : ℤ).toNat) (-53 + 0) := by
        have := Decimal.le_log2_shiftLeft_mul 53 hpos hpower
        unfold target
        omega
      have hvalue : (n : ℚ) = (n <<< 53 : ℕ) * 2 ^ (-53 : ℤ)
          * ((10 ^ (0 : ℤ).toNat : ℕ) * 2 ^ (0 : ℤ)) := by
        rw [Nat.shiftLeft_eq, Int.toNat_zero, pow_zero, Nat.cast_one, zpow_zero, mul_one, mul_one,
          zpow_neg, Nat.cast_mul, Nat.cast_pow, Nat.cast_ofNat, ← zpow_natCast 2 53,
          Nat.cast_ofNat, mul_inv_cancel_right₀ (by positivity)]
      unfold UnpackedFloat.ofScientific
      rw [dif_neg hpos.ne', if_neg (by decide),
        if_neg (by show ¬((0 : ℤ) < -(2048 + (n.log2 : ℤ))); omega), if_pos le_rfl]
      exact hvalue ▸ isRounding_mul _ hpower hbits
    have hread : Float.ofNat n = v :=
      (Decimal.ofScientific_of_many ⟨n, 0⟩ fun hfew => hlt hfew.1).trans (hrounding.pack_eq hv)
    rwa [hread]

/-- **A whole number of at most 53 bits is exact.** -/
theorem represents_ofNat {n : ℕ} (h : n < 2 ^ 53) : Represents (Float.ofNat n) n := by
  have hrounds := roundsTo_ofNat n
  rw [← mul_one (n : ℚ), ← zpow_zero 2] at hrounds ⊢
  exact hrounds.represents h (by decide) (by decide)

theorem represents_one : Represents 1 1 := by
  rw [← toFloat_one, ← toRat_one]
  exact .toFloat isDouble_one

namespace Represents

theorem whole_eq (h : Represents v x) : (magnitude v).whole = ⌊x⌋₊ := by
  rw [← h.toRat, toRat_eq_div, Nat.floor_div_eq_div]
  rfl

theorem floorInt_eq (h : Represents v x) : floorInt v = ⌊x⌋₊ := by
  rw [floorInt, (isNaN_isInf_of_isFinite h.isFinite).1, h.isSigned, ← h.whole_eq]
  rfl

/-- The number cut to an integer, and held between two bounds. -/
theorem toIntBetween_eq (h : Represents v x) (low high : ℤ) :
    toIntBetween low high v = max low (min high ⌊x⌋₊) := by
  rw [toIntBetween, (isNaN_isInf_of_isFinite h.isFinite).1, h.isSigned, ← h.whole_eq]
  rfl

/-- **What is at most a whole number** is not rounded to a larger one. -/
theorem roundNat_le (h : Represents v x) {n : ℕ} (hle : x ≤ n) : roundNat v ≤ n := by
  have hden := (magnitude v).den_pos
  rw [← h.toRat, toRat_eq_div, div_le_iff₀ (Nat.cast_pos.2 hden)] at hle
  have hnum : (magnitude v).num ≤ n * (magnitude v).den := by exact_mod_cast hle
  unfold roundNat roundHalfUp
  refine Nat.le_of_lt_succ ((Nat.div_lt_iff_lt_mul (by omega)).2 ?_)
  calc 2 * (magnitude v).num + (magnitude v).den
      < 2 * (n * (magnitude v).den) + 2 * (magnitude v).den := by omega
    _ = (n + 1) * (2 * (magnitude v).den) := by ring

/-- **The fractional part is exact.** It is a whole number of the units of the
number, with no more bits than that has. -/
theorem fract (h : Represents v x) : Represents (fract v) (x - ⌊x⌋₊) := by
  rcases h.zero_or with ⟨rfl, rfl⟩ | ⟨b, hb, rfl, rfl⟩
  · rw [Nat.floor_zero, Nat.cast_zero, sub_zero, show Number.fract 0 = 0 by decide +kernel]
    exact .zero
  have hwhole : b.whole = ⌊b.toRat⌋₊ := by
    rw [← (toFloat hb).whole_eq, hb.magnitude_toFloat]
  have hfloor : (⌊b.toRat⌋₊ : ℚ) ≤ b.toRat := Nat.floor_le hb.toRat_pos.le
  rw [Number.fract, trunc, hb.magnitude_toFloat]
  by_cases hexponent : 0 ≤ b.exponent
  · -- there are no bits after the point
    have hnone : b.toRat = ⌊b.toRat⌋₊ := by
      rw [← hwhole, toRat_eq_div, whole, show b.den = 1 by
        rw [den, Int.toNat_of_nonpos (by omega), pow_zero], Nat.cast_one, div_one, Nat.div_one]
    rw [if_pos hexponent, ← hnone, sub_self]
    have hrounds := (toFloat hb).sub (toFloat hb) le_rfl
    rw [sub_self] at hrounds
    exact hrounds.represents_of_represents zero
  · have hnum : b.num = b.significand := by
      rw [num, Int.toNat_of_nonpos (by omega), pow_zero, Nat.mul_one]
    have hlt : b.whole < 2 ^ 53 := by
      refine lt_of_le_of_lt (Nat.div_le_self _ _) ?_
      rw [hnum]
      exact hb.lt
    -- the bits behind the point, which are fewer than the significand's
    have hrest : b.toRat - ⌊b.toRat⌋₊ = (b.num % b.den : ℕ) * 2 ^ b.exponent := by
      have hunit : (2 : ℚ) ^ b.exponent = 1 / b.den := by
        rw [den, Nat.cast_pow, Nat.cast_ofNat, ← zpow_natCast, Int.toNat_of_nonneg (by omega),
          zpow_neg, one_div, inv_inv]
      have hden : (b.den : ℚ) ≠ 0 := Nat.cast_ne_zero.2 b.den_pos.ne'
      have hdiv : (b.num : ℚ) = b.den * b.whole + (b.num % b.den : ℕ) := by
        exact_mod_cast (Nat.div_add_mod b.num b.den).symm
      rw [← hwhole, hunit, toRat_eq_div]
      field_simp
      linarith
    have hrounds := (toFloat hb).sub (represents_ofNat hlt) (hwhole ▸ hfloor)
    rw [if_neg hexponent, hb.isSigned_toFloat, if_neg Bool.false_ne_true]
    rw [hwhole, hrest] at hrounds
    rw [hwhole, hrest]
    refine hrounds.represents ?_ hb.le_exponent (by omega)
    exact (Nat.mod_le _ _).trans_lt (hnum ▸ hb.lt)

end Represents

/-! ## Whole numbers below zero -/

theorem Binary.IsDouble.neg_toFloat (hb : b.IsDouble) : -hb.toFloat = hb.withSign .negative := by
  show Float.ofModel (.pack hb.toFloat.toModel.unpack.neg) = _
  rw [hb.unpack_toFloat]
  rfl

theorem ofInt_natCast (n : ℕ) : ofInt n = Float.ofNat n :=
  if_neg (by omega)

/-- A whole number below zero is a double with a sign. -/
theorem ofInt_neg {n : ℕ} (hpos : 0 < n) (hlt : n < 2 ^ 53) :
    ofInt (-n) = (isDouble_ofNat hpos hlt).withSign .negative := by
  rw [ofInt, if_pos (by omega), Int.natAbs_neg, Int.natAbs_natCast, ofNat_eq_toFloat hpos hlt]
  exact (isDouble_ofNat hpos hlt).neg_toFloat

/-- **Whole numbers of at most 53 bits are in their order** as doubles, below
zero as above. -/
theorem ofInt_lt_ofInt {m n : ℤ} (hm : m.natAbs < 2 ^ 53) (hn : n.natAbs < 2 ^ 53) (h : m < n) :
    ofInt m < ofInt n := by
  rcases Int.lt_or_le m 0 with hneg | hnonneg
  · obtain ⟨k, rfl⟩ : ∃ k : ℕ, m = -k := ⟨m.natAbs, by omega⟩
    have hk := isDouble_ofNat (n := k) (by omega) (by omega)
    rw [ofInt_neg (by omega) (by omega), lt_iff_compare, hk.unpack_withSign]
    rcases Int.lt_or_le n 0 with hneg' | hnonneg
    · obtain ⟨l, rfl⟩ : ∃ l : ℕ, n = -l := ⟨n.natAbs, by omega⟩
      have hl := isDouble_ofNat (n := l) (by omega) (by omega)
      have hlt : (Binary.ofNat l).toRat < (Binary.ofNat k).toRat := by
        rw [toRat_ofNat (by omega) (by omega), toRat_ofNat (by omega) (by omega)]
        exact Nat.cast_lt.2 (by omega)
      have hcompare := hk.compare_eq hl
      rw [compare_gt_iff_gt.2 hlt] at hcompare
      rw [ofInt_neg (by omega) (by omega), hl.unpack_withSign]
      exact congrArg (fun order => some order.swap) hcompare
    · -- below zero against zero or more: the signs decide
      obtain ⟨l, rfl⟩ := Int.eq_ofNat_of_zero_le hnonneg
      rw [ofInt_natCast]
      rcases (represents_ofNat (n := l) (by omega)).zero_or with ⟨hzero, -⟩ | ⟨b, hb, hdouble, -⟩
      · rw [hzero]
        rfl
      · rw [hdouble, hb.unpack_toFloat]
        rfl
  · obtain ⟨k, rfl⟩ := Int.eq_ofNat_of_zero_le hnonneg
    obtain ⟨l, rfl⟩ := Int.eq_ofNat_of_zero_le (hnonneg.trans h.le)
    rw [ofInt_natCast, ofInt_natCast,
      (represents_ofNat (by omega)).lt_iff (represents_ofNat (by omega))]
    exact Nat.cast_lt.2 (by omega)

/-- Nothing is added by zero, whichever sign the number has. -/
theorem ofInt_add_zero {n : ℤ} (h : n.natAbs < 2 ^ 53) : ofInt n + 0 = ofInt n := by
  rcases Int.lt_or_le n 0 with hneg | hnonneg
  · obtain ⟨k, rfl⟩ : ∃ k : ℕ, n = -k := ⟨n.natAbs, by omega⟩
    have hk := isDouble_ofNat (n := k) (by omega) (by omega)
    rw [ofInt_neg (by omega) (by omega)]
    show Float.ofModel (.pack (UnpackedFloat.add Format.binary64
      (hk.withSign .negative).toModel.unpack (0 : Float).toModel.unpack)) = _
    rw [hk.unpack_withSign]
    rfl
  · obtain ⟨k, rfl⟩ := Int.eq_ofNat_of_zero_le hnonneg
    rw [ofInt_natCast]
    rcases (represents_ofNat (n := k) (by omega)).zero_or with ⟨hzero, -⟩ | ⟨b, hb, hdouble, -⟩
    · rw [hzero]
      decide
    · rw [hdouble]
      show Float.ofModel (.pack (UnpackedFloat.add Format.binary64
        hb.toFloat.toModel.unpack (0 : Float).toModel.unpack)) = _
      rw [hb.unpack_toFloat]
      rfl

end Worksheet.Number
