import Worksheet.Proofs.Number.Order

/-!
# Powers of ten

Powers are computed by repeated squaring, and every product is rounded. As long
as the exact power has a double, so have all the products on the way to it, and
they exceed the exact ones by no more than one rounding for each factor ten
(`exists_powLoop`).

So the powers of ten up to the 308th are doubles, at least one, and so are their
reciprocals, which stay above `2 ^ -1000` up to the 300th (`exists_powInt_ten`,
`exists_powInt_ten_neg`). A number that is not too small can be divided by the
power of ten of its leading digit, and by ten once more (`exists_mantissa`).
-/

namespace Worksheet.Number

open Binary

variable {b result base : Binary}

/-- Ten with the error of one rounding. Its powers bound what repeated squaring
comes to. -/
def roundedTen : ℚ :=
  10 * slack

theorem one_le_roundedTen : 1 ≤ roundedTen := by
  unfold roundedTen
  linarith [one_le_slack]

/-- Rounding errors do not add up to much: the powers stay in the range of the
doubles. -/
theorem roundedTen_pow_le_largest {n : ℕ} (h : n ≤ 308) : roundedTen ^ n ≤ largest := by
  have hblock : roundedTen ^ 28 ≤ 102 / 100 * 2 ^ 93 := by
    unfold roundedTen slack
    norm_num
  have hpow : (0 : ℚ) < 2 ^ (971 : ℤ) := by positivity
  calc roundedTen ^ n ≤ roundedTen ^ 308 := pow_le_pow_right₀ one_le_roundedTen h
    _ = (roundedTen ^ 28) ^ 11 := pow_mul roundedTen 28 11
    _ ≤ (102 / 100 * 2 ^ 93) ^ 11 :=
        pow_le_pow_left₀ (pow_nonneg (one_le_roundedTen.trans' zero_le_one) _) hblock 11
    _ = (102 / 100) ^ 11 * 2 ^ 52 * 2 ^ (971 : ℤ) := by
        rw [mul_pow, ← pow_mul, mul_assoc, ← zpow_natCast, ← zpow_natCast 2 52,
          ← zpow_add₀ two_ne_zero]
        norm_num
    _ ≤ largest := mul_le_mul_of_nonneg_right (by norm_num) hpow.le

theorem roundedTen_pow_le_two_zpow {n : ℕ} (h : n ≤ 300) :
    roundedTen ^ n ≤ 2 ^ (1000 : ℤ) := by
  have hblock : roundedTen ^ 30 ≤ 2 ^ 100 := by
    unfold roundedTen slack
    norm_num
  calc roundedTen ^ n ≤ roundedTen ^ 300 := pow_le_pow_right₀ one_le_roundedTen h
    _ = (roundedTen ^ 30) ^ 10 := pow_mul roundedTen 30 10
    _ ≤ (2 ^ 100) ^ 10 :=
        pow_le_pow_left₀ (pow_nonneg (one_le_roundedTen.trans' zero_le_one) _) hblock 10
    _ = 2 ^ (1000 : ℤ) := by
        rw [← pow_mul]
        rfl

theorem smallest_le_one : smallest ≤ 1 :=
  zpow_le_one_of_nonpos₀ one_le_two (by decide)

theorem one_le_largest : 1 ≤ largest :=
  (pow_zero roundedTen).ge.trans (roundedTen_pow_le_largest (Nat.zero_le _))

theorem smallest_le_zpow : smallest ≤ 2 ^ (-1000 : ℤ) :=
  zpow_le_zpow_right₀ one_le_two (by decide)

theorem zpow_le_largest : 2 ^ (1000 : ℤ) ≤ largest := by
  have hbits : (2 : ℚ) ^ (29 : ℤ) ≤ 2 ^ 53 - 1 := by norm_num
  calc (2 : ℚ) ^ (1000 : ℤ) = 2 ^ (29 : ℤ) * 2 ^ (971 : ℤ) := by
        rw [← zpow_add₀ two_ne_zero]
        rfl
    _ ≤ largest := mul_le_mul_of_nonneg_right hbits (by positivity)

/-- **One product on the way** to a power: it is a double, and at least one. -/
theorem exists_product {b₁ b₂ : Binary} (h₁ : b₁.IsDouble) (h₂ : b₂.IsDouble) {n : ℕ}
    (hn : n ≤ 308) (hone₁ : 1 ≤ b₁.toRat) (hone₂ : 1 ≤ b₂.toRat)
    (hle : b₁.toRat * b₂.toRat * slack ≤ roundedTen ^ n) :
    ∃ (b : Binary) (hb : b.IsDouble), h₁.toFloat * h₂.toFloat = hb.toFloat
      ∧ 1 ≤ b.toRat ∧ b.toRat ≤ b₁.toRat * b₂.toRat * slack := by
  have hone : 1 ≤ b₁.toRat * b₂.toRat := one_le_mul_of_one_le_of_one_le hone₁ hone₂
  have hlarge : b₁.toRat * b₂.toRat ≤ largest :=
    (le_mul_of_one_le_right (zero_le_one.trans hone) one_le_slack).trans
      (hle.trans (roundedTen_pow_le_largest hn))
  obtain ⟨b, hb, heq, hrounds⟩ := h₁.exists_mul h₂ (smallest_le_one.trans hone) hlarge
  have hzero : (2 : ℚ) ^ (0 : ℤ) ≤ b₁.toRat * b₂.toRat := hone
  exact ⟨b, hb, heq, hrounds.zpow_le_toRat hb (by decide) hzero,
    hrounds.toRat_le (hrounds.normal hb (by decide) hzero)⟩

/-- **Repeated squaring stays in the range.** The result is at most a power of
ten with one rounding for each factor; so is the base, with one rounding to
spare for its next use. -/
theorem exists_powLoop {i j n : ℕ} (hresult : result.IsDouble) (hbase : base.IsDouble)
    (hresult₁ : 1 ≤ result.toRat) (hresult₂ : result.toRat ≤ roundedTen ^ i)
    (hbase₁ : 1 ≤ base.toRat) (hbase₂ : base.toRat * slack ≤ roundedTen ^ j)
    (h : i + j * n ≤ 308) :
    ∃ (b : Binary) (hb : b.IsDouble), powLoop hresult.toFloat hbase.toFloat n = hb.toFloat
      ∧ 1 ≤ b.toRat ∧ b.toRat ≤ roundedTen ^ (i + j * n) := by
  induction n using Nat.strongRecOn generalizing result base i j with
  | ind n ih =>
    have hten : (0 : ℚ) ≤ roundedTen := one_le_roundedTen.trans' zero_le_one
    have hslack : (0 : ℚ) ≤ slack := one_le_slack.trans' zero_le_one
    have hhalves : j * n = j * (n % 2) + 2 * j * (n / 2) := by
      conv_lhs => rw [← Nat.mod_add_div n 2]
      ring
    -- the result with the base as a factor, when the exponent is odd
    obtain ⟨next, hnext, hnexteq, hnext₁, hnext₂⟩ : ∃ (b : Binary) (hb : b.IsDouble),
        (if n % 2 = 1 then hresult.toFloat * hbase.toFloat else hresult.toFloat) = hb.toFloat
          ∧ 1 ≤ b.toRat ∧ b.toRat ≤ roundedTen ^ (i + j * (n % 2)) := by
      rcases Nat.mod_two_eq_zero_or_one n with heven | hodd
      · refine ⟨result, hresult, if_neg (by omega), hresult₁, ?_⟩
        rwa [heven, Nat.mul_zero, Nat.add_zero]
      · have hle : result.toRat * base.toRat * slack ≤ roundedTen ^ (i + j) := by
          rw [mul_assoc, pow_add]
          exact mul_le_mul hresult₂ hbase₂
            (mul_nonneg (zero_le_one.trans hbase₁) hslack) (pow_nonneg hten i)
        rw [hodd, Nat.mul_one] at hhalves ⊢
        obtain ⟨b, hb, heq, hone, hb₂⟩ :=
          exists_product hresult hbase (by omega) hresult₁ hbase₁ hle
        exact ⟨b, hb, heq, hone, hb₂.trans hle⟩
    rw [powLoop, hnexteq]
    split
    · rename_i hend
      refine ⟨next, hnext, rfl, hnext₁, ?_⟩
      rwa [hhalves, hend, Nat.mul_zero, Nat.add_zero]
    · rename_i hmore
      have htwice : 2 * j ≤ 2 * j * (n / 2) := Nat.le_mul_of_pos_right _ (by omega)
      have hle : base.toRat * base.toRat * slack * slack ≤ roundedTen ^ (2 * j) := by
        rw [two_mul, pow_add]
        calc base.toRat * base.toRat * slack * slack
            = base.toRat * slack * (base.toRat * slack) := by ring
          _ ≤ roundedTen ^ j * roundedTen ^ j :=
              mul_le_mul hbase₂ hbase₂ (mul_nonneg (zero_le_one.trans hbase₁) hslack)
                (pow_nonneg hten j)
      have hsquare : base.toRat * base.toRat * slack ≤ roundedTen ^ (2 * j) := by
        refine le_trans (le_mul_of_one_le_right ?_ one_le_slack) hle
        have := zero_le_one.trans hbase₁
        positivity
      obtain ⟨square, hsq, heq, hsq₁, hsq₂⟩ :=
        exists_product hbase hbase (by omega) hbase₁ hbase₁ hsquare
      rw [heq]
      obtain ⟨b, hb, hloop, hone, hb₂⟩ := ih (n / 2) (by omega) hnext hsq hnext₁ hnext₂ hsq₁
        ((mul_le_mul_of_nonneg_right hsq₂ hslack).trans hle) (by omega)
      refine ⟨b, hb, hloop, hone, ?_⟩
      rwa [hhalves, ← Nat.add_assoc]

theorem isDouble_ten : (Binary.ofNat 10).IsDouble :=
  isDouble_ofNat (by decide) (by decide)

theorem toRat_ten : (Binary.ofNat 10).toRat = 10 :=
  toRat_ofNat (by decide) (by decide)

theorem toFloat_ten : isDouble_ten.toFloat = 10 := by
  decide

/-- **A power of ten is a double**, and at least one. How far it is from the
exact power is bounded by `roundedTen`. -/
theorem exists_powInt_ten {n : ℕ} (h : n ≤ 308) :
    ∃ (b : Binary) (hb : b.IsDouble), powInt 10 n = hb.toFloat
      ∧ 1 ≤ b.toRat ∧ b.toRat ≤ roundedTen ^ n := by
  obtain ⟨b, hb, hloop, hone, hle⟩ := exists_powLoop (i := 0) (j := 1) (n := n)
    isDouble_one isDouble_ten toRat_one.ge
    (by rw [toRat_one, pow_zero]) (by rw [toRat_ten]; norm_num)
    (by rw [toRat_ten, pow_one]; rfl) (by omega)
  rw [Nat.zero_add, Nat.one_mul] at hle
  refine ⟨b, hb, ?_, hone, hle⟩
  rw [powInt, if_neg (by omega), ← hloop, toFloat_one, toFloat_ten]
  rfl

/-- **The reciprocal of a power of ten is a double**, and it is at most one, up
to a rounding. -/
theorem exists_powInt_ten_neg {n : ℕ} (hpos : 0 < n) (h : n ≤ 300) :
    ∃ (b : Binary) (hb : b.IsDouble), powInt 10 (-n) = hb.toFloat
      ∧ 2 ^ (-1000 : ℤ) ≤ b.toRat ∧ b.toRat ≤ slack := by
  obtain ⟨p, hp, hpower, hone, hle⟩ := exists_powInt_ten (n := n) (by omega)
  have hsize : p.toRat ≤ 2 ^ (1000 : ℤ) := hle.trans (roundedTen_pow_le_two_zpow h)
  have hlow : (2 : ℚ) ^ (-1000 : ℤ) ≤ one.toRat / p.toRat := by
    rw [toRat_one, zpow_neg, one_div]
    exact inv_anti₀ (zero_lt_one.trans_le hone) hsize
  have hhigh : one.toRat / p.toRat ≤ 1 := by
    rw [toRat_one]
    exact div_le_one_of_le₀ hone (zero_le_one.trans hone)
  obtain ⟨b, hb, heq, hrounds⟩ := isDouble_one.exists_div hp (smallest_le_zpow.trans hlow)
    (hhigh.trans one_le_largest)
  refine ⟨b, hb, ?_, hrounds.zpow_le_toRat hb (by decide) hlow, ?_⟩
  · rw [← heq, ← hpower, toFloat_one, powInt, powInt, if_pos (by omega), if_neg (by omega),
      Int.natAbs_neg]
  · refine (hrounds.toRat_le (hrounds.normal hb (by decide) hlow)).trans ?_
    exact mul_le_of_le_one_left (one_le_slack.trans' zero_le_one) hhigh

/-! ## Mantissas

A number is written with its leading digit before the point by dividing it by a
power of ten, and the power may be the reciprocal of a rounded one
(`exists_powInt_ten_neg`). The bounds of `roundedTen` leave room enough on both
sides, so no quotient is lost to overflow or to zero. -/

/-- The leading digit of a double stands at a power of ten that is a double as
well. -/
theorem leadingExponent_bounds (h : b.IsDouble) (hlow : 10 ^ (-300 : ℤ) ≤ b.toRat) :
    -300 ≤ leadingExponent b.num b.den ∧ leadingExponent b.num b.den ≤ 308 := by
  have hten : (1 : ℚ) < 10 := by norm_num
  have hpower : (2 : ℚ) ^ (1024 : ℤ) < 10 ^ (309 : ℤ) := by
    calc (2 : ℚ) ^ (1024 : ℤ) = (2 ^ 128) ^ 8 := by
          rw [← pow_mul]
          rfl
      _ < (10 ^ 103) ^ 3 := by norm_num
      _ = 10 ^ (309 : ℤ) := by
          rw [← pow_mul]
          rfl
  have hmin := (zpow_lt_zpow_iff_right₀ hten).1 (hlow.trans_lt h.lt_zpow_leadingExponent)
  have hmax := (zpow_lt_zpow_iff_right₀ hten).1 (h.zpow_leadingExponent_le.trans_lt
    (h.toRat_le_largest.trans_lt (largest_lt.trans hpower)))
  omega

/-- **A number over the power of its leading digit** is a double, whether the
number is below one or large. The quotient is at most ten, up to the errors of
the power, and far from zero. -/
theorem exists_mantissa (h : b.IsDouble) (hlow : 10 ^ (-300 : ℤ) ≤ b.toRat)
    (hfar : b.toRat < 1 ∨ 2 ^ (24 : ℤ) ≤ b.toRat) :
    ∃ (m : Binary) (hm : m.IsDouble),
      h.toFloat / powInt 10 (leadingExponent b.num b.den) = hm.toFloat
        ∧ 2 ^ (-1000 : ℤ) ≤ m.toRat := by
  have hle := h.zpow_leadingExponent_le
  have hlt := h.lt_zpow_leadingExponent
  obtain ⟨hmin, hmax⟩ := leadingExponent_bounds h hlow
  generalize leadingExponent b.num b.den = exponent at hle hlt hmin hmax ⊢
  have hten : (1 : ℚ) < 10 := by norm_num
  have hlargest := h.toRat_le_largest
  have hpos := h.toRat_pos
  -- the power, and the bounds of the quotient
  obtain ⟨p, hp, hpower, hquotient⟩ : ∃ (p : Binary) (hp : p.IsDouble),
      powInt 10 exponent = hp.toFloat
        ∧ 2 ^ (-1000 : ℤ) ≤ b.toRat / p.toRat ∧ b.toRat / p.toRat ≤ largest := by
    rcases hfar with hsmall | hlarge
    · have hneg : exponent < 0 :=
        (zpow_lt_zpow_iff_right₀ hten).1 (hle.trans_lt (hsmall.trans_eq (zpow_zero 10).symm))
      obtain ⟨n, rfl⟩ : ∃ n : ℕ, exponent = -n := ⟨exponent.natAbs, by omega⟩
      obtain ⟨p, hp, hpower, hlow', hhigh⟩ := exists_powInt_ten_neg (n := n) (by omega) (by omega)
      refine ⟨p, hp, hpower, (le_div_iff₀ hp.toRat_pos).2 ?_, (div_le_iff₀ hp.toRat_pos).2 ?_⟩
      · have hslack : (10 : ℚ) ^ (300 : ℤ) * slack ≤ 2 ^ (1000 : ℤ) := by
          refine le_trans ?_ (roundedTen_pow_le_two_zpow le_rfl)
          rw [roundedTen, mul_pow]
          exact mul_le_mul_of_nonneg_left (le_self_pow₀ one_le_slack (by decide)) (by positivity)
        refine le_trans (mul_le_mul_of_nonneg_left hhigh (by positivity)) (le_trans ?_ hlow)
        rw [zpow_neg, zpow_neg, inv_mul_le_iff₀ (by positivity), ← div_eq_mul_inv,
          le_div_iff₀ (by positivity), mul_comm]
        exact hslack
      · calc b.toRat ≤ 2 ^ (1000 : ℤ) * 2 ^ (-1000 : ℤ) := by
              rw [← zpow_add₀ two_ne_zero]
              exact hsmall.le
          _ ≤ largest * p.toRat :=
              mul_le_mul zpow_le_largest hlow' (by positivity) (zero_le_one.trans one_le_largest)
    · have hnonneg : 0 < exponent + 1 := by
        refine (zpow_lt_zpow_iff_right₀ hten).1 (lt_of_le_of_lt ?_ hlt)
        exact (one_le_zpow₀ one_le_two (by decide)).trans hlarge
      obtain ⟨n, rfl⟩ : ∃ n : ℕ, exponent = n := ⟨exponent.natAbs, by omega⟩
      obtain ⟨p, hp, hpower, hone, -⟩ := exists_powInt_ten (n := n) (by omega)
      refine ⟨p, hp, hpower, (le_div_iff₀ hp.toRat_pos).2 ?_, (div_le_self hpos.le hone).trans
        hlargest⟩
      calc (2 : ℚ) ^ (-1000 : ℤ) * p.toRat ≤ 2 ^ (-1000 : ℤ) * 2 ^ (1024 : ℤ) :=
            mul_le_mul_of_nonneg_left (hp.toRat_le_largest.trans largest_lt.le) (by positivity)
        _ = 2 ^ (24 : ℤ) := by
            rw [← zpow_add₀ two_ne_zero]
            rfl
        _ ≤ b.toRat := hlarge
  obtain ⟨m, hm, heq, hrounds⟩ := h.exists_div hp (smallest_le_zpow.trans hquotient.1) hquotient.2
  exact ⟨m, hm, by rw [hpower, heq], hrounds.zpow_le_toRat hm (by decide) hquotient.1⟩

/-- A mantissa can be divided by ten, and stays in the range. -/
theorem exists_div_ten {m : Binary} (hm : m.IsDouble) (hlow : 2 ^ (-1000 : ℤ) ≤ m.toRat) :
    ∃ (d : Binary) (hd : d.IsDouble), hm.toFloat / 10 = hd.toFloat := by
  have hsmallest : smallest * 10 ≤ 2 ^ (-1000 : ℤ) := by
    calc smallest * 10 ≤ 2 ^ (-1022 : ℤ) * 2 ^ (4 : ℤ) :=
          mul_le_mul_of_nonneg_left (by norm_num) smallest_pos.le
      _ = 2 ^ (-1018 : ℤ) := by
          rw [← zpow_add₀ two_ne_zero]
          rfl
      _ ≤ 2 ^ (-1000 : ℤ) := zpow_le_zpow_right₀ one_le_two (by decide)
  have hquotient : smallest ≤ m.toRat / (Binary.ofNat 10).toRat
      ∧ m.toRat / (Binary.ofNat 10).toRat ≤ largest := by
    rw [toRat_ten]
    exact ⟨(le_div_iff₀ (by norm_num)).2 (hsmallest.trans hlow),
      (div_le_self hm.toRat_pos.le (by norm_num)).trans hm.toRat_le_largest⟩
  obtain ⟨d, hd, heq, -⟩ := hm.exists_div isDouble_ten hquotient.1 hquotient.2
  exact ⟨d, hd, by rw [← heq, toFloat_ten]⟩

end Worksheet.Number
