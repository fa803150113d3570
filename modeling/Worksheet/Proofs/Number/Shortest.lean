import Mathlib.Data.Nat.Cast.Order.Field
import Worksheet.Proofs.Number.Nearest
import Worksheet.Proofs.Text.Digits

/-!
# Fewest digits

The decimal that is found for a double is a neighbour of it on a grid of a power
of ten, and rounds to the double (`Binary.rounds_shortest`). With seventeen
digits the points of the grid are less than a unit apart, or three quarters of
one at a power of two, so one of the two neighbours lies within the interval of
the numbers that round to the double (`Binary.rounds_neighbour`). The search
therefore always comes to an end, and the decimal that stands for the case that
it finds none is never used.
-/

namespace Worksheet.Number

/-! ## The leading digit of a fraction -/

/-- A negative power of ten below a fraction. -/
theorem zpow_neg_le_div {num den places : ℕ} (hden : 0 < den) (h : den ≤ num * 10 ^ places) :
    (10 : ℚ) ^ (-(places : ℤ)) ≤ num / den := by
  have h' : (den : ℚ) ≤ num * 10 ^ places := by exact_mod_cast h
  rw [zpow_neg, zpow_natCast, inv_le_iff_one_le_mul₀ (by positivity), div_mul_eq_mul_div,
    le_div_iff₀ (Nat.cast_pos.2 hden), one_mul]
  exact h'

/-- **The leading digit is not above the fraction.** -/
theorem zpow_leadingExponent_le {num den : ℕ} (hnum : 0 < num) (hden : 0 < den) :
    (10 : ℚ) ^ leadingExponent num den ≤ num / den := by
  unfold leadingExponent
  split
  · rename_i hle
    have hlength : 0 < (Nat.toDigits 10 (num / den)).length := Nat.length_toDigits_pos
    have hpow := (Text.pow_length_toDigits (Nat.div_pos hle hden)).1
    -- the leading digit is that of the whole part
    rw [← Nat.cast_one, ← Nat.cast_sub hlength, zpow_natCast]
    refine le_trans ?_ Nat.cast_div_le
    exact_mod_cast hpow
  · rename_i hlt
    have hlength : 0 < (Nat.toDigits 10 (den / num)).length := Nat.length_toDigits_pos
    have hpow := (Text.pow_length_toDigits (Nat.div_pos (not_le.1 hlt).le hnum)).2
    dsimp only
    split
    · rename_i heq
      exact zpow_neg_le_div hden heq.ge
    · rw [← neg_add', ← Nat.cast_succ, Nat.succ_eq_add_one, Nat.sub_add_cancel hlength]
      refine zpow_neg_le_div hden ?_
      rw [Nat.mul_comm]
      exact (Nat.div_lt_iff_lt_mul hnum).1 hpow |>.le

namespace Binary

variable {b : Binary}

/-! ## The grid

A grid point is taken when it reads back as the double. For a coarse grid both
neighbours may fail, and the search goes on; `isSome_gridPoint?` bounds how
far, since a grid finer than the interval that rounds to the double has a point
in it. -/

theorem readsBack_of_gridPoint? {exponent : ℤ} {d : Decimal}
    (h : gridPoint? b exponent = some d) : readsBack b d = true := by
  unfold gridPoint? at h
  dsimp only at h
  split at h
  · rename_i hlower hupper
    split at h
    · exact Option.some.inj h ▸ hlower
    · exact Option.some.inj h ▸ hupper
  · rename_i hlower _
    exact Option.some.inj h ▸ hlower
  · rename_i _ hupper
    exact Option.some.inj h ▸ hupper
  · cases h

/-- A unit of a double is not much smaller than the double, so seventeen digits
tell doubles apart. -/
theorem IsDouble.significand_lt (h : b.IsDouble) :
    (b.significand : ℚ) < (1 / 2 + b.below) * 10 ^ 16 := by
  have hlt : (b.significand : ℚ) < 2 ^ 53 := by exact_mod_cast h.lt
  unfold below
  split
  · rename_i hpower
    rw [hpower.1]
    norm_num
  · refine hlt.trans ?_
    norm_num

/-- **One of two neighbours rounds to the double**, if they are close enough:
closer than the interval is wide. -/
theorem rounds_neighbour (h : b.IsDouble) {lower step : ℚ}
    (hstep : step * 10 ^ 16 ≤ b.toRat) (hle : lower ≤ b.toRat) (hlt : b.toRat < lower + step) :
    b.Rounds lower ∨ b.Rounds (lower + step) := by
  have hunit : (0 : ℚ) < 2 ^ b.exponent := by positivity
  have hsmall : step < (1 / 2 + b.below) * 2 ^ b.exponent := by
    have := mul_lt_mul_of_pos_right h.significand_lt hunit
    unfold toRat at hstep
    linarith
  -- a step is shorter than the interval, so not both neighbours are outside of it
  by_cases hnear : b.lowest < lower
  · left
    refine rounds_of_lt hnear (hle.trans_lt ?_)
    unfold toRat highest
    exact mul_lt_mul_of_pos_right (lt_add_of_pos_right _ (by norm_num)) hunit
  · right
    have hlowest : b.lowest < b.toRat := mul_lt_mul_of_pos_right (sub_lt_self _ b.below_pos) hunit
    refine rounds_of_lt (hlowest.trans hlt) ?_
    unfold lowest at hnear
    unfold highest
    linarith

/-- The neighbour below a double on a grid of a power of ten. -/
def lower (b : Binary) (exponent : ℤ) : Decimal :=
  ⟨b.num * 10 ^ (-exponent).toNat / (b.den * 10 ^ exponent.toNat), exponent⟩

def upper (b : Binary) (exponent : ℤ) : Decimal :=
  ⟨b.num * 10 ^ (-exponent).toNat / (b.den * 10 ^ exponent.toNat) + 1, exponent⟩

theorem toRat_upper (b : Binary) (exponent : ℤ) :
    (b.upper exponent).toRat = (b.lower exponent).toRat + 10 ^ exponent := by
  unfold Decimal.toRat upper lower
  push_cast
  ring

/-- **A double lies between its neighbours**, and is not the one above. -/
theorem neighbours (b : Binary) (exponent : ℤ) :
    (b.lower exponent).toRat ≤ b.toRat ∧
      b.toRat < (b.lower exponent).toRat + 10 ^ exponent := by
  have hden : 0 < b.den * 10 ^ exponent.toNat := Nat.mul_pos b.den_pos (Nat.pow_pos (by decide))
  have hpow : (0 : ℚ) < 10 ^ exponent := by positivity
  have hunits : b.toRat = ((b.num * 10 ^ (-exponent).toNat : ℕ) : ℚ)
      / (b.den * 10 ^ exponent.toNat : ℕ) * 10 ^ exponent := by
    have hpos : (0 : ℚ) < b.den := Nat.cast_pos.2 b.den_pos
    rw [toRat_eq_div, zpow_eq_div (by norm_num : (10 : ℚ) ≠ 0)]
    push_cast
    field_simp
  unfold Decimal.toRat lower
  rw [hunits]
  dsimp only
  constructor
  · exact mul_le_mul_of_nonneg_right Nat.cast_div_le hpow.le
  · rw [← add_one_mul]
    refine mul_lt_mul_of_pos_right ?_ hpow
    rw [div_lt_iff₀ (Nat.cast_pos.2 hden)]
    exact_mod_cast Nat.lt_mul_of_div_lt (Nat.lt_succ_self _) hden

/-- **The search succeeds on a fine grid.** One of the neighbours rounds to the
double, and reads back. -/
theorem isSome_gridPoint? (h : b.IsDouble) {exponent : ℤ}
    (hstep : 10 ^ exponent * 10 ^ 16 ≤ b.toRat) : (gridPoint? b exponent).isSome = true := by
  obtain ⟨hle, hlt⟩ := b.neighbours exponent
  have hfound : readsBack b (b.lower exponent) = true ∨ readsBack b (b.upper exponent) = true := by
    rw [readsBack_iff h.pos, readsBack_iff h.pos, toRat_upper]
    exact rounds_neighbour h hstep hle hlt
  unfold gridPoint?
  dsimp only
  split
  · split <;> rfl
  · rfl
  · rfl
  · rename_i hlower hupper
    rcases hfound with hfound | hfound
    · exact absurd (hlower.symm.trans hfound) Bool.false_ne_true
    · exact absurd (hupper.symm.trans hfound) Bool.false_ne_true

/-- **The shortest decimal rounds to its double.** The search goes on to finer
grids until it succeeds, which it does with seventeen digits at the latest. -/
theorem rounds_shortest (h : b.IsDouble) : b.Rounds (shortest b).toRat := by
  have hleading : (10 : ℚ) ^ leadingExponent b.num b.den ≤ b.toRat :=
    toRat_eq_div b ▸ zpow_leadingExponent_le (Nat.mul_pos h.pos (Nat.two_pow_pos _)) b.den_pos
  have hstep : (10 : ℚ) ^ (leadingExponent b.num b.den - (16 : ℕ)) * 10 ^ 16 ≤ b.toRat := by
    rwa [zpow_sub₀ (by norm_num), zpow_natCast, div_mul_cancel₀ _ (by norm_num)]
  have hsome : ((List.range 17).findSome? fun (n : ℕ) =>
      gridPoint? b (leadingExponent b.num b.den - n)).isSome = true :=
    List.findSome?_isSome_iff.2 ⟨16, List.mem_range.2 (by decide), isSome_gridPoint? h hstep⟩
  obtain ⟨d, hd⟩ := Option.isSome_iff_exists.1 hsome
  obtain ⟨n, -, hn⟩ := List.exists_of_findSome?_eq_some hd
  unfold shortest
  dsimp only
  rw [hd]
  exact (readsBack_iff h.pos d).1 (readsBack_of_gridPoint? hn)

end Binary

end Worksheet.Number
