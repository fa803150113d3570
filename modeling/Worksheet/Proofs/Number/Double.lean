import Worksheet.Proofs.Number.Rounding

/-!
# Doubles and their bits

A double is packed into bits and unpacked again; `Number.magnitude` reads the
same significand and exponent off the bits (`IsDouble.magnitude_withSign`,
`unpack_eq_finite`), and with the sign they determine the double
(`withSign_magnitude`).

With that, products and quotients of doubles are what rounding makes of the
exact product and quotient (`IsDouble.mul_eq`, `IsDouble.div_eq`).
-/

namespace Worksheet.Number

open Float.Model Float.Model.UnpackedFloat

/-! ## The parts of the bits

Packing and unpacking are taken down to natural numbers: the sign, the exponent
and the significand of a double are quotients and remainders of its bits. -/

theorem eq_of_toBits {v w : Float} (h : v.toBits.toNat = w.toBits.toNat) : v = w := by
  obtain ⟨⟨bits, hbits⟩⟩ := v
  obtain ⟨⟨bits', hbits'⟩⟩ := w
  obtain rfl : bits = bits' := UInt64.toNat_inj.1 h
  rfl

theorem toNat_unpackMantissa (bits : BitVec 64) :
    (@unpackMantissa Format.binary64 bits).toNat = bits.toNat % 2 ^ 52 := by
  show (bits.toNat >>> 0) % 2 ^ 52 = _
  rw [Nat.shiftRight_zero]

theorem toNat_unpackExponent (bits : BitVec 64) :
    (@unpackExponent Format.binary64 bits).toNat = bits.toNat / 2 ^ 52 % 2 ^ 11 := by
  show (bits.toNat >>> 52) % 2 ^ 11 = _
  rw [Nat.shiftRight_eq_div_pow]

theorem toNat_unpackSign (bits : BitVec 64) :
    (@unpackSign Format.binary64 bits).toNat = bits.toNat / 2 ^ 63 := by
  show (bits.toNat >>> 63) % 2 = _
  have hlt : bits.toNat < 2 ^ 64 := bits.isLt
  rw [Nat.shiftRight_eq_div_pow, Nat.mod_eq_of_lt (by omega)]

theorem toNat_append {m n : ℕ} (front : BitVec m) (back : BitVec n) :
    (front ++ back).toNat = front.toNat * 2 ^ n + back.toNat := by
  rw [BitVec.toNat_append, ← Nat.shiftLeft_add_eq_or_of_lt back.isLt, Nat.shiftLeft_eq]

theorem toNat_packComponents (sign : Sign) (exponent : BitVec 11) (mantissa : BitVec 52) :
    (packComponents Format.binary64 sign exponent mantissa).toNat
      = (sign.toBitVec.toNat * 2 ^ 11 + exponent.toNat) * 2 ^ 52 + mantissa.toNat := by
  show (sign.toBitVec ++ exponent ++ mantissa).toNat = _
  rw [toNat_append, toNat_append]

/-! ## What a double is unpacked to

Arithmetic on doubles goes through unpacked floats, and `Number.magnitude`
reads the bits. That both have the same numbers connects what runs with what is
defined here. -/

/-- A double whose exponent has a zero among its bits is finite. With all of
them set it is an infinity or NaN. -/
theorem isFinite_iff (v : Float) :
    v.isFinite = true ↔ v.toBits.toNat / 2 ^ 52 % 2 ^ 11 ≠ 2 ^ 11 - 1 := by
  rw [← UInt64.toNat_toBitVec, ← toNat_unpackExponent]
  -- all ones in the exponent stand for the infinities and for what is not a
  -- number
  have hones : @unpackExponent Format.binary64 v.toBits.toBitVec = -1#_
      ↔ (@unpackExponent Format.binary64 v.toBits.toBitVec).toNat = 2 ^ 11 - 1 :=
    BitVec.toNat_inj.symm
  rw [Ne, ← hones]
  show (UnpackedFloat.unpack Format.binary64 v.toBits.toBitVec).isFinite = true ↔ _
  unfold UnpackedFloat.unpack
  dsimp only
  by_cases hexponent : @unpackExponent Format.binary64 v.toBits.toBitVec = -1#_
  · rw [if_pos hexponent]
    by_cases hmantissa : @unpackMantissa Format.binary64 v.toBits.toBitVec = 0#_
    · rw [if_pos hmantissa]
      exact iff_of_false Bool.false_ne_true fun hne => hne hexponent
    · rw [if_neg hmantissa]
      exact iff_of_false Bool.false_ne_true fun hne => hne hexponent
  · rw [if_neg hexponent]
    refine iff_of_true ?_ hexponent
    by_cases hzero : @unpackExponent Format.binary64 v.toBits.toBitVec = 0#_
    · rw [if_pos hzero]
      by_cases hmantissa : @unpackMantissa Format.binary64 v.toBits.toBitVec = 0#_
      · rw [dif_pos hmantissa]
        rfl
      · rw [dif_neg hmantissa]
        rfl
    · rw [if_neg hzero]
      rfl

theorem finite_congr {sign sign' : Sign} {mantissa mantissa' : ℕ} {exponent exponent' : ℤ}
    (hsign : sign = sign') (hmantissa : mantissa = mantissa') (hexponent : exponent = exponent')
    (h : 0 < mantissa) (h' : 0 < mantissa') :
    UnpackedFloat.finite sign mantissa exponent h = .finite sign' mantissa' exponent' h' := by
  subst hsign hmantissa hexponent
  rfl

/-- The sign of a double, by its first bit. -/
def signOf (v : Float) : Sign :=
  .ofBitVec (@unpackSign Format.binary64 v.toBits.toBitVec)

theorem signOf_eq (v : Float) : signOf v = if isSigned v then .negative else .positive := by
  have hbit := toNat_unpackSign v.toBits.toBitVec
  rw [UInt64.toNat_toBitVec] at hbit
  have hlt : v.toBits.toNat < 2 ^ 64 := v.toBits.toBitVec.isLt
  unfold signOf isSigned
  by_cases hsign : 2 ^ 63 ≤ v.toBits.toNat
  · rw [decide_eq_true hsign, if_pos rfl]
    refine if_neg fun hzero => ?_
    rw [hzero] at hbit
    change 0 = v.toBits.toNat / 2 ^ 63 at hbit
    omega
  · rw [decide_eq_false hsign]
    refine if_pos (BitVec.toNat_inj.1 ?_)
    rw [hbit, Nat.div_eq_of_lt (not_le.1 hsign)]
    rfl

/-- **A double is unpacked** to its sign and its magnitude:
`UnpackedFloat.unpack` reads the same numbers off the bits as
`Number.magnitude`. -/
theorem unpack_eq_finite {v : Float} (hfinite : v.isFinite = true)
    (hpos : 0 < (magnitude v).significand) :
    v.toModel.unpack
      = .finite (signOf v) (magnitude v).significand (magnitude v).exponent hpos := by
  have hmantissa := toNat_unpackMantissa v.toBits.toBitVec
  have hexponent := toNat_unpackExponent v.toBits.toBitVec
  rw [isFinite_iff] at hfinite
  rw [UInt64.toNat_toBitVec] at hmantissa hexponent
  show UnpackedFloat.unpack Format.binary64 v.toBits.toBitVec = _
  unfold UnpackedFloat.unpack
  dsimp only
  -- not all bits of the exponent are ones; if all are zeros the number is subnormal
  rw [if_neg fun h => hfinite (hexponent ▸ congrArg BitVec.toNat h)]
  by_cases hzero : v.toBits.toNat / 2 ^ 52 % 2 ^ 11 = 0
  · have hmagnitude : magnitude v = ⟨v.toBits.toNat % 2 ^ 52, -1074⟩ := if_pos hzero
    have hexponent' : @unpackExponent Format.binary64 v.toBits.toBitVec = 0#11 :=
      BitVec.toNat_inj.1 (hexponent.trans hzero)
    have hmantissa' : @unpackMantissa Format.binary64 v.toBits.toBitVec ≠ 0#52 := by
      intro h
      rw [hmagnitude, ← hmantissa, h] at hpos
      exact absurd hpos (Nat.lt_irrefl 0)
    rw [if_pos hexponent', dif_neg hmantissa']
    refine finite_congr rfl ?_ ?_ _ _
    · rw [hmantissa, hmagnitude]
    · rw [hexponent', hmagnitude]
      rfl
  · have hmagnitude : magnitude v = ⟨2 ^ 52 + v.toBits.toNat % 2 ^ 52,
        (v.toBits.toNat / 2 ^ 52 % 2 ^ 11 : ℕ) - 1075⟩ := if_neg hzero
    rw [if_neg fun h => hzero (hexponent ▸ congrArg BitVec.toNat h)]
    refine finite_congr rfl ?_ ?_ _ _
    · rw [toNat_append, hmantissa, hmagnitude]
      rfl
    · rw [hexponent, hmagnitude]
      rfl

/-- **A positive double is unpacked** to its magnitude. -/
theorem unpack_eq {v : Float} (hfinite : v.isFinite = true) (hsign : isSigned v = false)
    (hpos : 0 < (magnitude v).significand) :
    v.toModel.unpack
      = .finite .positive (magnitude v).significand (magnitude v).exponent hpos := by
  have hpositive : signOf v = .positive := by
    rw [signOf_eq, hsign, if_neg Bool.false_ne_true]
  rw [unpack_eq_finite hfinite hpos]
  exact finite_congr hpositive rfl rfl _ _

/-! ## The double of a significand and an exponent

The way back: a significand and an exponent within their bounds are packed to a
double, and unpacking gives them again. So a finite double is its sign and its
magnitude. -/

namespace Binary

variable {b : Binary}

/-- The double with some significand and exponent, packed as arithmetic packs
its results. -/
def IsDouble.toFloat (h : b.IsDouble) : Float :=
  .ofModel (.pack (.finite .positive b.significand b.exponent h.pos))

def IsDouble.withSign (h : b.IsDouble) (sign : Sign) : Float :=
  .ofModel (.pack (.finite sign b.significand b.exponent h.pos))

/-- **The bits of a double**: its sign, its exponent and then its significand,
of which the first bit is left out but for the smallest exponent. -/
theorem IsDouble.toNat_toBits_withSign (h : b.IsDouble) (sign : Sign) :
    (h.withSign sign).toBits.toNat
      = sign.toBitVec.toNat * 2 ^ 63 + if 2 ^ 52 ≤ b.significand then
          (b.exponent + 1075).toNat * 2 ^ 52 + (b.significand - 2 ^ 52)
        else b.significand := by
  have hexponent := h.le_exponent
  have hexponent' := h.exponent_le
  have hlt := h.lt
  show (UnpackedFloat.pack Format.binary64 _).toNat = _
  unfold UnpackedFloat.pack
  dsimp only
  have hbiased : (b.exponent + (Format.binary64.exponentBias : ℤ)
      + (Format.binary64.mantissaBitsWithoutImplicit : ℤ)).toNat = (b.exponent + 1075).toNat := by
    show (b.exponent + (1023 : ℤ) + (52 : ℤ)).toNat = _
    rw [add_assoc]
    rfl
  rw [hbiased, if_neg (by show ¬2 ^ 11 ≤ _; omega)]
  by_cases hnormal : 2 ^ 52 ≤ b.significand
  · -- a normal number drops its leading bit, which the exponent implies
    have hlog : b.significand.log2 + 1 = Format.binary64.mantissaBits := by
      have := (Nat.le_log2 h.pos.ne').2 hnormal
      have := (Nat.log2_lt h.pos.ne').2 hlt
      show b.significand.log2 + 1 = 1 + 52
      omega
    rw [if_pos hlog, if_pos hnormal, toNat_packComponents]
    show (sign.toBitVec.toNat * 2 ^ 11 + (b.exponent + 1075).toNat % 2 ^ 11) * 2 ^ 52
      + b.significand % 2 ^ 52 = _
    omega
  · have hlog : b.significand.log2 + 1 ≠ Format.binary64.mantissaBits := by
      have := (Nat.log2_lt h.pos.ne').2 (not_le.1 hnormal)
      show b.significand.log2 + 1 ≠ 1 + 52
      omega
    rw [if_neg hlog, if_neg hnormal, toNat_packComponents]
    show (sign.toBitVec.toNat * 2 ^ 11 + 0) * 2 ^ 52 + b.significand % 2 ^ 52 = _
    omega

/-- **The magnitude of such a double** is the significand and the exponent it
was made with. -/
theorem IsDouble.magnitude_withSign (h : b.IsDouble) (sign : Sign) :
    magnitude (h.withSign sign) = b := by
  have hexponent := h.le_exponent
  have hexponent' := h.exponent_le
  have hlt := h.lt
  have hpos := h.pos
  have hnormal := h.normal
  unfold magnitude
  rw [h.toNat_toBits_withSign]
  obtain ⟨significand, exponent⟩ := b
  dsimp only at *
  by_cases hbits : 2 ^ 52 ≤ significand
  · rw [if_pos hbits, if_neg (by omega), Binary.mk.injEq]
    constructor <;> omega
  · rw [if_neg hbits, if_pos (by omega), Binary.mk.injEq]
    constructor <;> omega

theorem IsDouble.magnitude_toFloat (h : b.IsDouble) : magnitude h.toFloat = b :=
  h.magnitude_withSign .positive

theorem IsDouble.isFinite_withSign (h : b.IsDouble) (sign : Sign) :
    (h.withSign sign).isFinite = true := by
  have hexponent := h.le_exponent
  have hexponent' := h.exponent_le
  have hlt := h.lt
  rw [isFinite_iff, h.toNat_toBits_withSign]
  split <;> omega

theorem IsDouble.isFinite_toFloat (h : b.IsDouble) : h.toFloat.isFinite = true :=
  h.isFinite_withSign .positive

theorem IsDouble.signOf_withSign (h : b.IsDouble) (sign : Sign) :
    signOf (h.withSign sign) = sign := by
  have hexponent := h.le_exponent
  have hexponent' := h.exponent_le
  have hlt := h.lt
  have hbits := h.toNat_toBits_withSign sign
  rw [signOf_eq, isSigned]
  cases sign with
  | positive =>
    change _ = 0 * 2 ^ 63 + _ at hbits
    rw [decide_eq_false (by split at hbits <;> omega), if_neg Bool.false_ne_true]
  | negative =>
    change _ = 1 * 2 ^ 63 + _ at hbits
    rw [decide_eq_true (by omega), if_pos rfl]

theorem IsDouble.isSigned_toFloat (h : b.IsDouble) : isSigned h.toFloat = false := by
  have hsign := (signOf_eq h.toFloat).symm.trans (h.signOf_withSign .positive)
  refine Bool.eq_false_iff.2 fun hsigned => ?_
  rw [if_pos hsigned] at hsign
  cases hsign

/-- **Such a double is unpacked** to its sign, its significand and its
exponent. -/
theorem IsDouble.unpack_withSign (h : b.IsDouble) (sign : Sign) :
    (h.withSign sign).toModel.unpack = .finite sign b.significand b.exponent h.pos := by
  have hmagnitude := h.magnitude_withSign sign
  have hpos : 0 < (magnitude (h.withSign sign)).significand := hmagnitude.symm ▸ h.pos
  rw [unpack_eq_finite (h.isFinite_withSign sign) hpos]
  exact finite_congr (h.signOf_withSign sign) (congrArg _ hmagnitude) (congrArg _ hmagnitude) _ _

theorem IsDouble.unpack_toFloat (h : b.IsDouble) :
    h.toFloat.toModel.unpack = .finite .positive b.significand b.exponent h.pos :=
  h.unpack_withSign .positive

/-- **The magnitude of a finite double** is one, unless it is zero. -/
theorem isDouble_magnitude {v : Float} (hfinite : v.isFinite = true)
    (hpos : 0 < (magnitude v).significand) : (magnitude v).IsDouble := by
  rw [isFinite_iff] at hfinite
  unfold magnitude at hpos ⊢
  dsimp only at hpos ⊢
  split
  · rename_i hzero
    rw [if_pos hzero] at hpos
    exact ⟨hpos, by dsimp only; omega, le_refl _, by dsimp only; omega, Or.inr rfl⟩
  · rename_i hzero
    rw [if_neg hzero] at hpos
    exact ⟨hpos, by dsimp only; omega, by dsimp only; omega, by dsimp only; omega,
      Or.inl (Nat.le_add_right _ _)⟩

/-- **A double is made of its sign and its magnitude**, as its bits are. -/
theorem withSign_magnitude {v : Float} (h : (magnitude v).IsDouble) :
    h.withSign (signOf v) = v := by
  have hbit : (signOf v).toBitVec.toNat = v.toBits.toNat / 2 ^ 63 := by
    have hlt : v.toBits.toNat < 2 ^ 64 := v.toBits.toBitVec.isLt
    rw [signOf_eq, isSigned]
    by_cases hsign : 2 ^ 63 ≤ v.toBits.toNat
    · rw [decide_eq_true hsign, if_pos rfl]
      change 1 = _
      omega
    · rw [decide_eq_false hsign, if_neg Bool.false_ne_true]
      change 0 = _
      omega
  refine eq_of_toBits ?_
  rw [h.toNat_toBits_withSign, hbit]
  unfold magnitude
  dsimp only
  by_cases hzero : v.toBits.toNat / 2 ^ 52 % 2 ^ 11 = 0
  · rw [if_pos hzero, if_neg (by dsimp only; omega)]
    dsimp only
    omega
  · rw [if_neg hzero, if_pos (Nat.le_add_right _ _)]
    dsimp only
    omega

/-- **A positive double is made of its magnitude.** -/
theorem toFloat_magnitude {v : Float} (hsign : isSigned v = false)
    (h : (magnitude v).IsDouble) : h.toFloat = v := by
  have hpositive : signOf v = .positive := by
    rw [signOf_eq, hsign, if_neg Bool.false_ne_true]
  exact (congrArg h.withSign hpositive.symm).trans (withSign_magnitude h)

/-! ## Products and quotients

Multiplication and division are rounded from enough bits, and what they are
rounded to is the double that the exact result rounds to. -/

/-- A product of doubles has enough bits to be rounded from: those of both
significands. -/
theorem IsDouble.le_target_mul {b₁ b₂ : Binary} (h₁ : b₁.IsDouble) (h₂ : b₂.IsDouble) :
    b₁.exponent + b₂.exponent
      ≤ target (b₁.significand * b₂.significand) (b₁.exponent + b₂.exponent) := by
  have hpos : 0 < b₁.significand * b₂.significand := Nat.mul_pos h₁.pos h₂.pos
  have hlog : 2 ^ 52 ≤ b₁.significand * b₂.significand →
      52 ≤ (b₁.significand * b₂.significand).log2 := (Nat.le_log2 hpos.ne').2
  unfold target
  rcases h₁.normal with hnormal | hsmall
  · have := hlog (hnormal.trans (Nat.le_mul_of_pos_right _ h₂.pos))
    omega
  · rcases h₂.normal with hnormal' | hsmall'
    · have := hlog (hnormal'.trans (Nat.le_mul_of_pos_left _ h₁.pos))
      omega
    · omega

/-- **A product is rounded** to the double that the exact product rounds to. -/
theorem IsDouble.mul_eq {b₁ b₂ : Binary} (h : b.IsDouble) (h₁ : b₁.IsDouble) (h₂ : b₂.IsDouble)
    (hrounds : b.Rounds (b₁.toRat * b₂.toRat)) : h₁.toFloat * h₂.toFloat = h.toFloat := by
  show Float.ofModel (.pack (UnpackedFloat.mul Format.binary64
    h₁.toFloat.toModel.unpack h₂.toFloat.toModel.unpack)) = _
  rw [h₁.unpack_toFloat, h₂.unpack_toFloat,
    (isRounding_mul h₁.pos h₂.pos (h₁.le_target_mul h₂)).eq_finite h.isUnbounded hrounds]
  rfl

/-- **A quotient is rounded** to the double that the exact quotient rounds to. -/
theorem IsDouble.div_eq {b₁ b₂ : Binary} (h : b.IsDouble) (h₁ : b₁.IsDouble) (h₂ : b₂.IsDouble)
    (hrounds : b.Rounds (b₁.toRat / b₂.toRat)) : h₁.toFloat / h₂.toFloat = h.toFloat := by
  show Float.ofModel (.pack (UnpackedFloat.div Format.binary64
    h₁.toFloat.toModel.unpack h₂.toFloat.toModel.unpack)) = _
  rw [h₁.unpack_toFloat, h₂.unpack_toFloat,
    (isRounding_div h₁.pos h₂.pos).eq_finite h.isUnbounded hrounds]
  rfl

def one : Binary :=
  ⟨2 ^ 52, -52⟩

theorem isDouble_one : one.IsDouble := by
  constructor <;> decide

theorem toRat_one : one.toRat = 1 := by
  unfold toRat one
  norm_num

theorem toFloat_one : isDouble_one.toFloat = 1 := by
  decide

/-- A double divided by one is itself, since it rounds to itself. -/
theorem IsDouble.toFloat_div_one (h : b.IsDouble) : h.toFloat / 1 = h.toFloat := by
  rw [← toFloat_one]
  refine h.div_eq h isDouble_one ?_
  rw [toRat_one, div_one]
  exact b.rounds_toRat

theorem IsDouble.toFloat_mul_one (h : b.IsDouble) : h.toFloat * 1 = h.toFloat := by
  rw [← toFloat_one]
  refine h.mul_eq h isDouble_one ?_
  rw [toRat_one, mul_one]
  exact b.rounds_toRat

end Binary

end Worksheet.Number
