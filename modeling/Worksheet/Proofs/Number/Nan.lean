import Worksheet.Proofs.Number.Size

/-!
# Numbers and what is none

NaN comes about in few ways. What is rounded and packed is a number
(`isNaN_ofModel_pack`), so only operations on the unpacked values themselves can
make a NaN of numbers. Changing a sign does not (`isNaN_neg`), and a sum does
only when both of its terms are infinite (`isNaN_add`).

A size is a number (`IsSize.isNaN_eq_false`). So is every whole number as a
double (`isNaN_ofInt`), which is finite if it has at most 53 bits
(`isFinite_ofInt`).
-/

namespace Worksheet.Number

open Float.Model Float.Model.UnpackedFloat

/-- Bits are NaN when the exponent has all of its bits and the mantissa has
any. -/
theorem isNaN_unpack {format : Format} (bits : BitVec format.numBits) :
    (UnpackedFloat.unpack format bits).isNaN = true ↔
      unpackExponent bits = -1#_ ∧ unpackMantissa bits ≠ 0#_ := by
  unfold UnpackedFloat.unpack
  dsimp only
  by_cases hones : unpackExponent bits = -1#_
  · rw [if_pos hones]
    by_cases hnone : unpackMantissa bits = 0#_
    · rw [if_pos hnone]
      exact iff_of_false Bool.false_ne_true fun h => h.2 hnone
    · rw [if_neg hnone]
      exact iff_of_true rfl ⟨hones, hnone⟩
  · rw [if_neg hones]
    refine iff_of_false (fun h => ?_) fun h => hones h.1
    by_cases hzero : unpackExponent bits = 0#_
    · rw [if_pos hzero] at h
      by_cases hnone : unpackMantissa bits = 0#_
      · rw [dif_pos hnone] at h
        cases h
      · rw [dif_neg hnone] at h
        cases h
    · rw [if_neg hzero] at h
      cases h

/-- What is packed without a mantissa is not NaN, and neither is what has a
smaller exponent. -/
theorem isNaN_unpack_packComponents {format : Format} {sign : Sign}
    {exponent : BitVec format.exponentBits} {mantissa : BitVec format.mantissaBitsWithoutImplicit}
    (h : exponent = -1#_ → mantissa = 0#_) :
    (UnpackedFloat.unpack format (packComponents format sign exponent mantissa)).isNaN = false := by
  rw [Bool.eq_false_iff, Ne, isNaN_unpack, unpackExponent_packComponents,
    unpackMantissa_packComponents]
  exact fun hnan => hnan.2 (h hnan.1)

/-- **Packing makes no NaN** and loses none. It is why only an `UnpackedFloat`
has to be looked at. -/
theorem isNaN_ofModel_pack (u : UnpackedFloat) : (Float.ofModel (.pack u)).isNaN = u.isNaN := by
  show (UnpackedFloat.unpack Format.binary64 (UnpackedFloat.pack Format.binary64 u)).isNaN = _
  cases u with
  | notANumber => rfl
  | infinity sign => cases sign <;> rfl
  | zero sign => cases sign <;> rfl
  | finite sign mantissa exponent hmantissa =>
    show _ = false
    unfold UnpackedFloat.pack
    dsimp only
    split
    · exact isNaN_unpack_packComponents fun _ => rfl
    · rename_i hexponent
      split
      · refine isNaN_unpack_packComponents fun hones => absurd ?_ hexponent
        have hmod := congrArg BitVec.toNat hones
        rw [BitVec.toNat_ofNat] at hmod
        show 2 ^ 11 ≤ (exponent + (Format.binary64.exponentBias : ℤ)
          + (Format.binary64.mantissaBitsWithoutImplicit : ℤ)).toNat + 1
        have hle := Nat.mod_le (exponent + (Format.binary64.exponentBias : ℤ)
          + (Format.binary64.mantissaBitsWithoutImplicit : ℤ)).toNat (2 ^ 11)
        rw [show (2 : ℕ) ^ 11 = 2 ^ Format.binary64.exponentBits from rfl, hmod] at hle
        exact Nat.succ_le_succ hle
      · exact isNaN_unpack_packComponents fun hones => absurd hones (by decide)

variable {v w : Float}

/-- **A number with its sign changed** is one. -/
theorem isNaN_neg (v : Float) : (-v).isNaN = v.isNaN := by
  show (Float.ofModel (.pack v.toModel.unpack.neg)).isNaN = v.toModel.unpack.isNaN
  rw [isNaN_ofModel_pack]
  cases v.toModel.unpack <;> rfl

theorem isNaN_normalize (mantissa exponent : ℤ) (sign : Sign) :
    (UnpackedFloat.normalize Format.binary64 mantissa exponent sign).isNaN = false := by
  have hround : ∀ (sign : Sign) (mantissa : ℕ),
      (UnpackedFloat.round Format.binary64 sign mantissa exponent).isNaN = false := by
    intro sign mantissa
    unfold UnpackedFloat.round roundWithAccuracy
    exact forall_dite (P := fun u => u.isNaN = false) (fun _ => rfl) fun _ => rfl
  unfold UnpackedFloat.normalize
  split
  · exact hround _ _
  · rfl
  · exact hround _ _

/-- Only infinite values with different signs have no sum. -/
theorem isNaN_unpackedAdd {u u' : UnpackedFloat} (h : u.isFinite = true) (h' : u'.isNaN = false) :
    (UnpackedFloat.add Format.binary64 u u').isNaN = false := by
  cases u with
  | notANumber | infinity => cases h
  | zero sign =>
    cases u' with
    | notANumber => cases h'
    | infinity | finite => rfl
    | zero sign' => cases sign <;> cases sign' <;> rfl
  | finite =>
    cases u' with
    | notANumber => cases h'
    | infinity | zero => rfl
    | finite => exact isNaN_normalize _ _ _

/-- **The sum of a finite number and another one** is a number, which may be
infinite. -/
theorem isNaN_add (hv : v.isFinite = true) (hw : w.isNaN = false) : (v + w).isNaN = false :=
  (isNaN_ofModel_pack _).trans (isNaN_unpackedAdd hv hw)

/-- **A size is a number.** -/
theorem IsSize.isNaN_eq_false (h : IsSize v) : v.isNaN = false := by
  rcases h.finite_or with hfinite | rfl
  · exact (isNaN_isInf_of_isFinite hfinite).1
  · decide

/-- **A number that is not finite** is one of the two infinite ones. -/
theorem isInf_of_isNaN (hnan : v.isNaN = false) (hfinite : v.isFinite = false) :
    v.isInf = true := by
  have hcases : ∀ u : UnpackedFloat, u.isNaN = false → u.isFinite = false → u.isInf = true := by
    intro u hnan hfinite
    cases u with
    | notANumber => cases hnan
    | infinity => rfl
    | zero | finite => cases hfinite
  exact hcases v.toModel.unpack hnan hfinite

/-! ## Whole numbers -/

theorem isNaN_ofInt (n : ℤ) : (ofInt n).isNaN = false := by
  have hsize := (isSize_ofNat n.natAbs).isNaN_eq_false
  unfold ofInt
  split
  · rw [isNaN_neg, hsize]
  · exact hsize

/-- **A whole number of at most 53 bits is that double**, and nothing of it is
lost. -/
theorem ofNat_eq_toFloat {n : ℕ} (hpos : 0 < n) (hlt : n < 2 ^ 53) :
    Float.ofNat n = (Binary.isDouble_ofNat hpos hlt).toFloat := by
  show Float.ofScientific n false 0 = _
  rw [Decimal.ofScientific_of_few false hlt (by decide), if_neg Bool.false_ne_true,
    Binary.toFloat_ofNat hpos hlt]
  exact (Binary.isDouble_ofNat hpos hlt).toFloat_mul_one

/-- A whole number of at most 53 bits is finite as a double. -/
theorem isFinite_ofInt {n : ℤ} (h : n.natAbs < 2 ^ 53) : (ofInt n).isFinite = true := by
  rcases Nat.eq_zero_or_pos n.natAbs with hzero | hpos
  · obtain rfl := Int.natAbs_eq_zero.1 hzero
    decide
  · have hdouble := Binary.isDouble_ofNat hpos h
    unfold ofInt
    rw [ofNat_eq_toFloat hpos h]
    split
    · have hneg : -hdouble.toFloat = hdouble.withSign .negative := by
        show Float.ofModel (.pack hdouble.toFloat.toModel.unpack.neg) = _
        rw [hdouble.unpack_toFloat]
        rfl
      rw [hneg]
      exact hdouble.isFinite_withSign .negative
    · exact hdouble.isFinite_toFloat

end Worksheet.Number
