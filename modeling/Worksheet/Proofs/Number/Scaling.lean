import Worksheet.Proofs.Number.Powers
import Worksheet.Proofs.Number.Rounded
import Worksheet.Proofs.Number.Unsigned

/-!
# Where scaling a number overflows

A product or a quotient of two doubles is the number that the exact one rounds
to (`Binary.IsDouble.roundsTo_mul`, `Binary.IsDouble.roundsTo_div`), so it is
finite just when the exact one is not too large (`RoundsTo.isFinite_iff`).
Multiplying may lead out of the range (`isFinite_mul_iff`). Dividing by
something that is at least one does not (`AtLeastOne.isFinite_div`), and that is
what the powers of such a number are, also when they are infinite
(`AtLeastOne.powInt`).

Powers of ten with negative exponents are below one, and zero once the power
they are the reciprocal of is infinite. A number below one may be divided by
them as long as they are not (`isFinite_div_powInt`, `isFinite_div_powInt_iff`).
-/

namespace Worksheet.Number

open Binary Float.Model

variable {x : ℚ} {v w : Float} {b b₁ b₂ : Binary}

/-! ## Products and quotients of doubles

Signs are left out: a format takes the magnitude of a number before it scales
it. What remains is zero or a double (`eq_zero_or_exists_toFloat`), and an
operation is finite just when the exact result is under `overflow`. -/

/-- **A product is the double** that the exact one rounds to, also where it is
infinite or zero. -/
theorem Binary.IsDouble.roundsTo_mul (h₁ : b₁.IsDouble) (h₂ : b₂.IsDouble) :
    RoundsTo (b₁.toRat * b₂.toRat) (h₁.toFloat * h₂.toFloat) := by
  obtain ⟨v, hv⟩ := exists_roundsTo (b₁.toRat * b₂.toRat)
  have heq : h₁.toFloat * h₂.toFloat = v := by
    show Float.ofModel (.pack (UnpackedFloat.mul Format.binary64
      h₁.toFloat.toModel.unpack h₂.toFloat.toModel.unpack)) = _
    rw [h₁.unpack_toFloat, h₂.unpack_toFloat]
    exact (isRounding_mul h₁.pos h₂.pos (h₁.le_target_mul h₂)).pack_eq hv
  rwa [heq]

/-- **A quotient is the double** that the exact one rounds to. -/
theorem Binary.IsDouble.roundsTo_div (h₁ : b₁.IsDouble) (h₂ : b₂.IsDouble) :
    RoundsTo (b₁.toRat / b₂.toRat) (h₁.toFloat / h₂.toFloat) := by
  obtain ⟨v, hv⟩ := exists_roundsTo (b₁.toRat / b₂.toRat)
  have heq : h₁.toFloat / h₂.toFloat = v := by
    show Float.ofModel (.pack (UnpackedFloat.div Format.binary64
      h₁.toFloat.toModel.unpack h₂.toFloat.toModel.unpack)) = _
    rw [h₁.unpack_toFloat, h₂.unpack_toFloat]
    exact (isRounding_div h₁.pos h₂.pos).pack_eq hv
  rwa [heq]

/-- **A number rounds to a finite one** when it is not too large. -/
theorem RoundsTo.isFinite_iff (h : RoundsTo x v) : v.isFinite = true ↔ x < overflow := by
  cases h with
  | double hb hrounds => exact iff_of_true hb.isFinite_toFloat (hrounds.lt_overflow hb)
  | zero hsmall =>
    refine iff_of_true (by decide) ((hsmall.trans_lt ?_).trans one_lt_overflow)
    exact zpow_lt_one_of_neg₀ one_lt_two (by decide)
  | infinite hlarge =>
    exact iff_of_false (by rw [isFinite_infinite]; exact Bool.false_ne_true) (not_lt.2 hlarge)

theorem RoundsTo.exists_toFloat (h : RoundsTo x v) (hlow : 2 ^ (-1075 : ℤ) < x)
    (hhigh : x < overflow) : ∃ (b : Binary) (hb : b.IsDouble), v = hb.toFloat := by
  cases h with
  | double hb hrounds => exact ⟨_, hb, rfl⟩
  | zero hsmall => exact absurd hlow (not_lt.2 hsmall)
  | infinite hlarge => exact absurd hhigh (not_lt.2 hlarge)

/-- **A finite number without a sign** is zero or a double. -/
theorem eq_zero_or_exists_toFloat (hfinite : v.isFinite = true) (hsigned : isSigned v = false) :
    v = 0 ∨ ∃ h : (magnitude v).IsDouble, v = h.toFloat := by
  rcases Nat.eq_zero_or_pos (magnitude v).significand with hzero | hpos
  · exact .inl (eq_zero_of_significand hsigned hzero)
  · have h := isDouble_magnitude hfinite hpos
    exact .inr ⟨h, (toFloat_magnitude hsigned h).symm⟩

/-- **A product is finite** when the exact one is not too large. -/
theorem isFinite_mul_iff (hfinite : v.isFinite = true) (hsigned : isSigned v = false)
    (hw : b.IsDouble) :
    (v * hw.toFloat).isFinite = true ↔ (magnitude v).toRat * b.toRat < overflow := by
  rcases eq_zero_or_exists_toFloat hfinite hsigned with rfl | ⟨h, hv⟩
  · have hzero : (0 : Float) * hw.toFloat = 0 := by
      show Float.ofModel (.pack (UnpackedFloat.mul Format.binary64
        (0 : Float).toModel.unpack hw.toFloat.toModel.unpack)) = _
      rw [hw.unpack_toFloat]
      rfl
    have hnone : (magnitude 0).toRat = 0 := by
      rw [toRat, show (magnitude 0).significand = 0 by decide, Nat.cast_zero, zero_mul]
    rw [hzero, hnone, zero_mul]
    exact iff_of_true (by decide) (one_lt_overflow.trans' zero_lt_one)
  · have hproduct := (h.roundsTo_mul hw).isFinite_iff
    rwa [← hv] at hproduct

theorem toRat_magnitude_lt_overflow (hfinite : v.isFinite = true) :
    (magnitude v).toRat < overflow := by
  rcases Nat.eq_zero_or_pos (magnitude v).significand with hzero | hpos
  · rw [toRat, hzero, Nat.cast_zero, zero_mul]
    exact one_lt_overflow.trans' zero_lt_one
  · exact (isDouble_magnitude hfinite hpos).toRat_le_largest.trans_lt largest_lt_overflow

/-- **What is not finite stays so** when it is divided. -/
theorem isFinite_of_isFinite_div (h : (v / w).isFinite = true) : v.isFinite = true := by
  have hpack : ∀ u : UnpackedFloat, u.isFinite = false →
      (Float.ofModel (.pack u)).isFinite = false := by
    intro u hu
    cases u with
    | notANumber => rfl
    | infinity sign => cases sign <;> rfl
    | zero | finite => cases hu
  have hdiv : ∀ u u' : UnpackedFloat, u.isFinite = false →
      (UnpackedFloat.div Format.binary64 u u').isFinite = false := by
    intro u u' hu
    cases u with
    | notANumber | infinity => cases u' <;> rfl
    | zero | finite => cases hu
  by_contra hv
  exact Bool.false_ne_true ((hpack _ (hdiv _ _ (Bool.eq_false_iff.2 hv))).symm.trans h)

/-! ## Numbers from one on

Powers of ten may overflow to infinity, and dividing by infinity gives zero,
which is finite too. `AtLeastOne` includes it, so that one induction over
repeated squaring covers every exponent. -/

/-- **A number that is at least one**, or infinite. Dividing by such a number
leads to nothing larger. -/
inductive AtLeastOne : Float → Prop
  | double {b : Binary} (h : b.IsDouble) (hone : 1 ≤ b.toRat) : AtLeastOne h.toFloat
  | infinite : AtLeastOne infinite

theorem RoundsTo.atLeastOne (h : RoundsTo x v) (hx : 1 ≤ x) : AtLeastOne v := by
  cases h with
  | double hb hrounds =>
    refine .double hb (hrounds.zpow_le_toRat (k := 0) hb (by decide) ?_)
    rwa [zpow_zero]
  | zero hsmall =>
    exact absurd (hx.trans hsmall) (not_le.2 (zpow_lt_one_of_neg₀ one_lt_two (by decide)))
  | infinite => exact .infinite

/-- **A product** of two of them is at least one, or infinite. -/
theorem AtLeastOne.mul (hv : AtLeastOne v) (hw : AtLeastOne w) : AtLeastOne (v * w) := by
  cases hv with
  | double h₁ hone₁ =>
    cases hw with
    | double h₂ hone₂ =>
      exact (h₁.roundsTo_mul h₂).atLeastOne (one_le_mul_of_one_le_of_one_le hone₁ hone₂)
    | infinite =>
      suffices hinfinite : h₁.toFloat * Number.infinite = Number.infinite by
        rw [hinfinite]
        exact .infinite
      show Float.ofModel (.pack (UnpackedFloat.mul Format.binary64
        h₁.toFloat.toModel.unpack Number.infinite.toModel.unpack)) = _
      rw [h₁.unpack_toFloat]
      rfl
  | infinite =>
    cases hw with
    | double h₂ hone₂ =>
      suffices hinfinite : Number.infinite * h₂.toFloat = Number.infinite by
        rw [hinfinite]
        exact .infinite
      show Float.ofModel (.pack (UnpackedFloat.mul Format.binary64
        Number.infinite.toModel.unpack h₂.toFloat.toModel.unpack)) = _
      rw [h₂.unpack_toFloat]
      rfl
    | infinite => exact .infinite

/-- Repeated squaring leads to no smaller ones, by induction on the exponent. -/
theorem AtLeastOne.powLoop (hv : AtLeastOne v) (hw : AtLeastOne w) (n : ℕ) :
    AtLeastOne (powLoop v w n) := by
  fun_induction Number.powLoop v w n with
  | case1 v w n current hend =>
    unfold current
    split
    · exact hv.mul hw
    · exact hv
  | case2 v w n current hmore ih =>
    refine ih ?_ (hw.mul hw)
    unfold current
    split
    · exact hv.mul hw
    · exact hv

theorem AtLeastOne.one : AtLeastOne 1 := by
  rw [← toFloat_one]
  exact .double isDouble_one toRat_one.ge

/-- **Powers** of them are at least one, or infinite. -/
theorem AtLeastOne.powInt (h : AtLeastOne v) (n : ℕ) : AtLeastOne (powInt v n) := by
  rw [Number.powInt, if_neg (by omega)]
  exact AtLeastOne.one.powLoop h _

theorem AtLeastOne.ten : AtLeastOne 10 := by
  rw [← toFloat_ten]
  exact .double isDouble_ten (toRat_ten.ge.trans' (by norm_num))

theorem AtLeastOne.thousand : AtLeastOne 1000 := by
  have hthousand : (isDouble_ofNat (n := 1000) (by decide) (by decide)).toFloat = 1000 := by
    decide
  rw [← hthousand]
  exact .double _ ((toRat_ofNat (by decide) (by decide)).ge.trans' (by norm_num))

theorem zero_div_toFloat (h : b.IsDouble) : 0 / h.toFloat = 0 := by
  show Float.ofModel (.pack (UnpackedFloat.div Format.binary64
    (0 : Float).toModel.unpack h.toFloat.toModel.unpack)) = _
  rw [h.unpack_toFloat]
  rfl

/-- **A finite number is divided by them** without leaving the range. -/
theorem AtLeastOne.isFinite_div (hw : AtLeastOne w) (hfinite : v.isFinite = true)
    (hsigned : isSigned v = false) : (v / w).isFinite = true := by
  rcases eq_zero_or_exists_toFloat hfinite hsigned with rfl | ⟨h, hv⟩
  · cases hw with
    | double h₂ hone =>
      rw [zero_div_toFloat]
      exact hfinite
    | infinite => rfl
  · rw [hv]
    cases hw with
    | double h₂ hone =>
      refine (h.roundsTo_div h₂).isFinite_iff.2 ?_
      exact ((div_le_self h.toRat_pos.le hone).trans h.toRat_le_largest).trans_lt
        largest_lt_overflow
    | infinite =>
      suffices hzero : h.toFloat / Number.infinite = 0 by
        rw [hzero]
        decide
      show Float.ofModel (.pack (UnpackedFloat.div Format.binary64
        h.toFloat.toModel.unpack Number.infinite.toModel.unpack)) = _
      rw [h.unpack_toFloat]
      rfl

/-! ## Powers of ten and of a hundred

The reciprocals are the delicate ones: the power of a negative exponent is one
over the positive power, and it is zero as soon as that is infinite. Dividing
by zero then leaves the range (`isFinite_div_powInt_iff`). -/

/-- **A number is divided by a power of ten** without leaving the range, when it
is below one and the power is one that a double has a reciprocal for, or the
power is at least one. -/
theorem isFinite_div_powInt (hfinite : v.isFinite = true) (hsigned : isSigned v = false)
    {exponent : ℤ} (hlow : -300 ≤ exponent)
    (hsize : exponent < 0 → (magnitude v).toRat < 10 ^ (7 : ℤ)) :
    (v / powInt 10 exponent).isFinite = true := by
  rcases Int.lt_or_le exponent 0 with hneg | hnonneg
  · obtain ⟨n, rfl⟩ : ∃ n : ℕ, exponent = -n := ⟨exponent.natAbs, by omega⟩
    obtain ⟨p, hp, hpower, hsmall, -⟩ := exists_powInt_ten_neg (n := n) (by omega) (by omega)
    rw [hpower]
    rcases eq_zero_or_exists_toFloat hfinite hsigned with rfl | ⟨h, hv⟩
    · rw [zero_div_toFloat]
      exact hfinite
    · rw [hv, (h.roundsTo_div hp).isFinite_iff, div_lt_iff₀ hp.toRat_pos]
      have hbits : (10 : ℚ) ^ (7 : ℤ) * 2 ^ (29 : ℤ) ≤ 2 ^ 53 - 1 / 2 := by norm_num
      calc (magnitude v).toRat < 10 ^ (7 : ℤ) * (2 ^ (1000 : ℤ) * 2 ^ (-1000 : ℤ)) := by
            rw [← zpow_add₀ two_ne_zero]
            exact (hsize hneg).trans_eq (mul_one _).symm
        _ = 10 ^ (7 : ℤ) * 2 ^ (29 : ℤ) * 2 ^ (971 : ℤ) * 2 ^ (-1000 : ℤ) := by
            rw [show (1000 : ℤ) = 29 + 971 from rfl, zpow_add₀ two_ne_zero]
            ring
        _ ≤ overflow * p.toRat :=
            mul_le_mul (mul_le_mul_of_nonneg_right hbits (by positivity)) hsmall (by positivity)
              (one_lt_overflow.trans' zero_lt_one).le
  · obtain ⟨n, rfl⟩ := Int.eq_ofNat_of_zero_le hnonneg
    exact (AtLeastOne.ten.powInt n).isFinite_div hfinite hsigned

/-- No double is smaller than the last bit. -/
theorem Binary.IsDouble.zpow_le_toRat (h : b.IsDouble) : 2 ^ (-1074 : ℤ) ≤ b.toRat := by
  have hone : (1 : ℚ) ≤ b.significand := Nat.one_le_cast.2 h.pos
  have hexponent : (2 : ℚ) ^ (-1074 : ℤ) ≤ 2 ^ b.exponent :=
    zpow_le_zpow_right₀ one_le_two h.le_exponent
  exact hexponent.trans (le_mul_of_one_le_left (by positivity) hone)

/-- **The reciprocal of a power of ten** is a double as long as the power is. -/
theorem exists_toFloat_powInt_ten_neg {n : ℕ} (hpos : 0 < n) (h : n ≤ 308) :
    ∃ (p : Binary) (hp : p.IsDouble), powInt 10 (-n) = hp.toFloat := by
  obtain ⟨p, hp, hpower, hone, -⟩ := exists_powInt_ten h
  have hlow : (2 : ℚ) ^ (-1075 : ℤ) < one.toRat / p.toRat := by
    calc (2 : ℚ) ^ (-1075 : ℤ) < 2 ^ (-1024 : ℤ) := zpow_lt_zpow_right₀ one_lt_two (by decide)
      _ = (2 ^ (1024 : ℤ))⁻¹ := zpow_neg _ _
      _ ≤ p.toRat⁻¹ := inv_anti₀ hp.toRat_pos (hp.toRat_le_largest.trans largest_lt.le)
      _ = one.toRat / p.toRat := by rw [toRat_one, one_div]
  have hhigh : one.toRat / p.toRat < overflow := by
    rw [toRat_one]
    exact (div_le_one_of_le₀ hone (zero_le_one.trans hone)).trans_lt one_lt_overflow
  obtain ⟨q, hq, heq⟩ := (isDouble_one.roundsTo_div hp).exists_toFloat hlow hhigh
  refine ⟨q, hq, ?_⟩
  rw [← heq, ← hpower, toFloat_one, powInt, powInt, if_pos (by omega), if_neg (by omega),
    Int.natAbs_neg]

/-- **The reciprocal is zero** where the power is infinite. -/
theorem powInt_ten_neg_eq_zero {n : ℕ} (hlow : 309 ≤ n) (hhigh : n ≤ 324) :
    powInt 10 (-n) = 0 := by
  have hzero : ∀ more < 16, powInt 10 (-(309 + more : ℕ)) = 0 := by decide +kernel
  obtain ⟨more, rfl⟩ := Nat.exists_eq_add_of_le hlow
  exact hzero more (by omega)

/-- **A very small number is divided by a power of ten** without leaving the
range just when the power is a double. -/
theorem isFinite_div_powInt_iff (h : b.IsDouble)
    (hsmall : b.toRat ≤ 2 ^ (1000 : ℤ) * 2 ^ (-1074 : ℤ)) {exponent : ℤ}
    (hlow : -324 ≤ exponent) :
    (h.toFloat / powInt 10 exponent).isFinite = true ↔ -308 ≤ exponent := by
  rcases Int.lt_or_le exponent 0 with hneg | hnonneg
  · obtain ⟨n, rfl⟩ : ∃ n : ℕ, exponent = -n := ⟨exponent.natAbs, by omega⟩
    rcases Nat.lt_or_ge 308 n with hlarge | hfew
    · have hinfinite : h.toFloat / 0 = infinite := by
        show Float.ofModel (.pack (UnpackedFloat.div Format.binary64
          h.toFloat.toModel.unpack (0 : Float).toModel.unpack)) = _
        rw [h.unpack_toFloat]
        rfl
      rw [powInt_ten_neg_eq_zero hlarge (by omega), hinfinite, isFinite_infinite]
      exact iff_of_false Bool.false_ne_true (by omega)
    · obtain ⟨p, hp, hpower⟩ := exists_toFloat_powInt_ten_neg (by omega) hfew
      rw [hpower, (h.roundsTo_div hp).isFinite_iff, div_lt_iff₀ hp.toRat_pos]
      refine iff_of_true (lt_of_le_of_lt ?_ (mul_lt_mul_of_pos_right largest_lt_overflow
        hp.toRat_pos)) (by omega)
      exact hsmall.trans (mul_le_mul zpow_le_largest hp.zpow_le_toRat (zpow_nonneg zero_le_two _)
        (zero_le_one.trans one_le_largest))
  · obtain ⟨n, rfl⟩ := Int.eq_ofNat_of_zero_le hnonneg
    have hfinite := (AtLeastOne.ten.powInt n).isFinite_div h.isFinite_toFloat h.isSigned_toFloat
    exact iff_of_true hfinite (by omega)

/-- **The powers of a hundred** that have no more bits than a double are
computed exactly. -/
theorem powInt_hundred {n : ℕ} (h : n ≤ 7) :
    ∃ hdouble : (Binary.ofNat (100 ^ n)).IsDouble, powInt 100 n = hdouble.toFloat
      ∧ (Binary.ofNat (100 ^ n)).toRat = 100 ^ n := by
  have hpos : 0 < 100 ^ n := Nat.pow_pos (by decide)
  have hlt : 100 ^ n < 2 ^ 53 := (Nat.pow_le_pow_right (by decide) h).trans_lt (by decide)
  have hpower : ∀ n < 8, isSigned (powInt 100 (n : ℕ)) = false
      ∧ magnitude (powInt 100 (n : ℕ)) = Binary.ofNat (100 ^ n) := by
    decide +kernel
  obtain ⟨hsigned, hmagnitude⟩ := hpower n (Nat.lt_succ_of_le h)
  have hdouble := isDouble_ofNat hpos hlt
  refine ⟨hdouble, ?_, by rw [toRat_ofNat hpos hlt]; push_cast; rfl⟩
  rw [← toFloat_magnitude hsigned (hmagnitude ▸ hdouble)]
  simp only [hmagnitude]

end Worksheet.Number
