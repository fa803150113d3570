import Worksheet.Proofs.Number.PlainText

/-!
# What digits are read as

Digits are read as a number without a sign that is finite or else infinite, and
never as something that is no number (`isSize_ofDigits`). Nothing is asked of
the digits: there may be as many of them as one likes, and any exponent.

On the bits this is a bound: those of a number without a sign are at most those
of infinity (`IsSize`). What is packed with a positive sign is within it
(`IsPositive.isSize_pack`), and a positive value stays one when it is multiplied
by or divided by a finite one, which is all that reading digits does. So does
the sum of two (`IsSize.add`), which makes times of day sizes.
-/

namespace Worksheet.Number

open Float.Model Float.Model.UnpackedFloat

/-- The number that is larger than any other. -/
def infinite : Float :=
  1.0 / 0.0

/-- **A size**: a number without a sign, finite or infinite. Its bits, as a
number, are at most those of infinity. -/
def IsSize (v : Float) : Prop :=
  v.toBits.toNat ≤ 2047 * 2 ^ 52

theorem toNat_toBits_infinite : infinite.toBits.toNat = 2047 * 2 ^ 52 := by
  decide

theorem isSize_infinite : IsSize infinite :=
  toNat_toBits_infinite.le

theorem isSize_zero : IsSize 0 := by
  unfold IsSize
  decide

/-- **A size has no sign.** -/
theorem IsSize.isSigned {v : Float} (h : IsSize v) : isSigned v = false :=
  decide_eq_false (by unfold IsSize at h; omega)

/-- **A size is finite or infinite**, and in particular not NaN. -/
theorem IsSize.finite_or {v : Float} (h : IsSize v) : v.isFinite = true ∨ v = infinite := by
  unfold IsSize at h
  rcases h.lt_or_eq with hlt | heq
  · left
    rw [isFinite_iff]
    omega
  · exact Or.inr (eq_of_toBits (heq.trans toNat_toBits_infinite.symm))

theorem IsSize.div_one_mul_one {v : Float} (h : IsSize v) : v / 1 * 1 = v := by
  rcases h.finite_or with hfinite | rfl
  · exact Number.div_one_mul_one hfinite h.isSigned
  · decide

/-! ## Positive values

The operations work on unpacked values, so the sign is followed there.
`IsPositive` leaves NaN out. It is kept by sums, and by products and quotients
with a finite value that is not zero. -/

/-- An unpacked value with a positive sign. NaN has none. -/
def IsPositive : UnpackedFloat → Prop
  | .infinity sign | .zero sign | .finite sign .. => sign = .positive
  | .notANumber => False

theorem forall_dite {P : UnpackedFloat → Prop} {c : Prop} [Decidable c] {t : c → UnpackedFloat}
    {e : ¬ c → UnpackedFloat} (ht : ∀ h, P (t h)) (he : ∀ h, P (e h)) : P (dite c t e) := by
  by_cases h : c
  · rw [dif_pos h]
    exact ht h
  · rw [dif_neg h]
    exact he h

/-- **What is packed with a positive sign is a size.** The exponent is held
below that of infinity, and what has too large a one is packed as infinity. -/
theorem IsPositive.isSize_pack {u : UnpackedFloat} (h : IsPositive u) :
    IsSize (.ofModel (.pack u)) := by
  -- the largest bit pattern allowed is that of the infinity: all ones in the
  -- exponent, nothing behind
  have hpacked : ∀ (exponent : BitVec 11) (mantissa : BitVec 52),
      exponent.toNat < 2047 ∨ exponent.toNat = 2047 ∧ mantissa.toNat = 0 →
      (packComponents Format.binary64 .positive exponent mantissa).toNat ≤ 2047 * 2 ^ 52 := by
    intro exponent mantissa hbounds
    have hlt : mantissa.toNat < 2 ^ 52 := mantissa.isLt
    rw [toNat_packComponents]
    show (0 * 2 ^ 11 + exponent.toNat) * 2 ^ 52 + mantissa.toNat ≤ _
    omega
  show (UnpackedFloat.pack Format.binary64 u).toNat ≤ _
  cases u with
  | notANumber => exact h.elim
  | infinity sign =>
    obtain rfl : sign = .positive := h
    exact hpacked _ _ (Or.inr ⟨rfl, rfl⟩)
  | zero sign =>
    obtain rfl : sign = .positive := h
    exact hpacked _ _ (Or.inl (by decide))
  | finite sign mantissa exponent hmantissa =>
    obtain rfl : sign = .positive := h
    unfold UnpackedFloat.pack
    dsimp only
    split
    · exact hpacked _ _ (Or.inr ⟨rfl, rfl⟩)
    · rename_i hexponent
      split
      · refine hpacked _ _ (Or.inl ?_)
        have hmod := Nat.mod_le (exponent + (Format.binary64.exponentBias : ℤ)
          + (Format.binary64.mantissaBitsWithoutImplicit : ℤ)).toNat (2 ^ 11)
        rw [BitVec.toNat_ofNat]
        refine lt_of_le_of_lt hmod ?_
        have hlt : (exponent + (Format.binary64.exponentBias : ℤ)
          + (Format.binary64.mantissaBitsWithoutImplicit : ℤ)).toNat + 1 < 2 ^ 11 :=
          not_le.1 hexponent
        omega
      · exact hpacked _ _ (Or.inl (by decide))

/-- A size is unpacked to a positive value. -/
theorem IsSize.isPositive {v : Float} (h : IsSize v) : IsPositive v.toModel.unpack := by
  have hmantissa := toNat_unpackMantissa v.toBits.toBitVec
  have hexponent := toNat_unpackExponent v.toBits.toBitVec
  have hpositive : Sign.ofBitVec (@unpackSign Format.binary64 v.toBits.toBitVec) = .positive := by
    refine if_pos (BitVec.toNat_inj.1 ?_)
    rw [toNat_unpackSign, UInt64.toNat_toBitVec]
    unfold IsSize at h
    exact Nat.div_eq_of_lt (by omega)
  rw [UInt64.toNat_toBitVec] at hmantissa hexponent
  show IsPositive (UnpackedFloat.unpack Format.binary64 v.toBits.toBitVec)
  unfold UnpackedFloat.unpack
  refine iteInduction (fun hones => ?_) fun _ => iteInduction (fun _ => ?_) fun _ => hpositive
  · have hnone : @unpackMantissa Format.binary64 v.toBits.toBitVec = 0#52 := by
      refine BitVec.toNat_inj.1 (hmantissa.trans ?_)
      have hall : v.toBits.toNat / 2 ^ 52 % 2 ^ 11 = 2047 :=
        hexponent.symm.trans (congrArg BitVec.toNat hones)
      unfold IsSize at h
      show v.toBits.toNat % 2 ^ 52 = 0
      omega
    rw [if_pos hnone]
    exact hpositive
  · exact forall_dite (fun _ => hpositive) fun _ => hpositive

theorem isPositive_roundWithAccuracy (mantissa : ℕ) (exponent : ℤ) (accuracy : Accuracy) :
    IsPositive (roundWithAccuracy Format.binary64 .positive mantissa exponent accuracy) := by
  unfold roundWithAccuracy
  exact forall_dite (fun _ => rfl) fun _ => rfl

/-- **A positive value times a finite one** is positive. -/
theorem IsPositive.mul_finite {u : UnpackedFloat} (h : IsPositive u) {mantissa : ℕ}
    {exponent : ℤ} (hmantissa : 0 < mantissa) :
    IsPositive (UnpackedFloat.mul Format.binary64 u
      (.finite .positive mantissa exponent hmantissa)) := by
  cases u with
  | notANumber => exact h.elim
  | infinity sign | zero sign =>
    obtain rfl : sign = .positive := h
    exact rfl
  | finite sign _ _ _ =>
    obtain rfl : sign = .positive := h
    exact isPositive_roundWithAccuracy _ _ _

/-- **A positive value over a finite one** is positive. -/
theorem IsPositive.div_finite {u : UnpackedFloat} (h : IsPositive u) {mantissa : ℕ}
    {exponent : ℤ} (hmantissa : 0 < mantissa) :
    IsPositive (UnpackedFloat.div Format.binary64 u
      (.finite .positive mantissa exponent hmantissa)) := by
  cases u with
  | notANumber => exact h.elim
  | infinity sign | zero sign =>
    obtain rfl : sign = .positive := h
    exact rfl
  | finite sign _ _ _ =>
    obtain rfl : sign = .positive := h
    exact isPositive_roundWithAccuracy _ _ _

theorem isPositive_normalize {mantissa : ℤ} (h : 0 ≤ mantissa) (exponent : ℤ) :
    IsPositive (UnpackedFloat.normalize Format.binary64 mantissa exponent .positive) := by
  unfold UnpackedFloat.normalize
  split
  · rename_i hneg
    exact absurd (Int.compare_eq_lt.1 hneg) (not_lt.2 h)
  · exact rfl
  · exact isPositive_roundWithAccuracy _ _ _

/-- **The sum of two positive values** is positive. -/
theorem IsPositive.add {u u' : UnpackedFloat} (h : IsPositive u) (h' : IsPositive u') :
    IsPositive (UnpackedFloat.add Format.binary64 u u') := by
  cases u with
  | notANumber => exact h.elim
  | infinity sign =>
    obtain rfl : sign = .positive := h
    cases u' with
    | notANumber => exact h'.elim
    | infinity sign' =>
      obtain rfl : sign' = .positive := h'
      -- infinities of one sign add up to the infinity; there is none of the
      -- other sign
      exact rfl
    | zero | finite => exact rfl
  | zero sign =>
    obtain rfl : sign = .positive := h
    cases u' with
    | notANumber => exact h'.elim
    | zero sign' =>
      obtain rfl : sign' = .positive := h'
      exact rfl
    | infinity | finite => exact h'
  | finite sign _ _ _ =>
    obtain rfl : sign = .positive := h
    cases u' with
    | notANumber => exact h'.elim
    | infinity => exact h'
    | zero => exact rfl
    | finite sign' _ _ _ =>
      obtain rfl : sign' = .positive := h'
      exact isPositive_normalize (Int.add_nonneg (Int.natCast_nonneg _) (Int.natCast_nonneg _)) _

/-! ## Sizes of digits

Each of the ways in which digits can be read ends in an operation of the
section before. Infinity occurs, for digits past the range, and is a size like
any other. -/

theorem isSize_toUInt64 (n : ℕ) : IsSize n.toUInt64.toFloat :=
  (isPositive_normalize (Int.natCast_nonneg n.toUInt64.toNat) 0).isSize_pack

variable {v : Float} {b : Binary}

theorem IsSize.mul_toFloat (h : IsSize v) (hb : b.IsDouble) : IsSize (v * hb.toFloat) := by
  show IsSize (.ofModel (.pack
    (UnpackedFloat.mul Format.binary64 v.toModel.unpack hb.toFloat.toModel.unpack)))
  rw [hb.unpack_toFloat]
  exact (h.isPositive.mul_finite hb.pos).isSize_pack

theorem IsSize.div_toFloat (h : IsSize v) (hb : b.IsDouble) : IsSize (v / hb.toFloat) := by
  show IsSize (.ofModel (.pack
    (UnpackedFloat.div Format.binary64 v.toModel.unpack hb.toFloat.toModel.unpack)))
  rw [hb.unpack_toFloat]
  exact (h.isPositive.div_finite hb.pos).isSize_pack

/-- A size over a finite number that is not zero is a size. -/
theorem IsSize.div {w : Float} (h : IsSize v) (hfinite : w.isFinite = true)
    (hsign : Number.isSigned w = false) (hpos : 0 < (magnitude w).significand) :
    IsSize (v / w) := by
  have hw := Binary.isDouble_magnitude hfinite hpos
  rw [← Binary.toFloat_magnitude hsign hw]
  exact h.div_toFloat hw

/-- The sum of two sizes is a size. -/
theorem IsSize.add {w : Float} (h : IsSize v) (hw : IsSize w) : IsSize (v + w) :=
  (h.isPositive.add hw.isPositive).isSize_pack

/-- The exact quotient of a decimal is positive. -/
theorem isPositive_ofScientific (digits : ℕ) (exponent : ℤ) :
    IsPositive (UnpackedFloat.ofScientific Format.binary64 digits exponent) := by
  unfold UnpackedFloat.ofScientific
  refine forall_dite (fun _ => rfl) fun _ => ?_
  refine iteInduction (fun _ => rfl) fun _ => iteInduction (fun _ => rfl) fun _ => ?_
  exact iteInduction (fun _ => isPositive_roundWithAccuracy _ _ _)
    fun _ => isPositive_roundWithAccuracy _ _ _

/-- **What is read from digits and a power of ten is a size**, exact or not. -/
theorem isSize_ofScientific (digits : ℕ) (negative : Bool) (exponent : ℕ) :
    IsSize (Float.ofScientific digits negative exponent) := by
  by_cases hfew : digits < 2 ^ 53 ∧ exponent ≤ 22
  · have hsize : exponent < Float.exactlyRepresentablePowersOfTen.size := Nat.lt_succ_of_le hfew.2
    obtain ⟨power, hpower, -, hentry⟩ := exists_powerOfTen hsize
    rw [Decimal.ofScientific_of_few _ hfew.1 hsize, hentry]
    split
    · exact (isSize_toUInt64 _).div_toFloat hpower
    · exact (isSize_toUInt64 _).mul_toFloat hpower
  · rw [Float.ofScientific, dif_neg hfew]
    exact (isPositive_ofScientific _ _).isSize_pack

theorem isSize_ofNat (n : ℕ) : IsSize (Float.ofNat n) :=
  isSize_ofScientific n false 0

/-- **A decimal is read as a size**, also where its leading digit is out of
bounds. -/
theorem Decimal.isSize_toFloat (d : Decimal) : IsSize d.toFloat := by
  unfold Decimal.toFloat
  dsimp only
  split
  · exact isSize_zero
  · split
    · exact isSize_infinite
    · exact isSize_ofScientific _ _ _

/-- **Digits are read as a size**, whatever the exponent is. -/
theorem isSize_ofDigits (whole fraction : List Char) (exponent : ℤ) :
    IsSize (ofDigits whole fraction exponent) :=
  Decimal.isSize_toFloat _

theorem plainText_infinite : plainText infinite = "inf".toList := by
  decide

theorem isFinite_infinite : infinite.isFinite = false := by
  decide

end Worksheet.Number
