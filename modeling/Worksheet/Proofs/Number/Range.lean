import Mathlib.Algebra.Order.Archimedean.Basic
import Mathlib.Data.Rat.Floor
import Worksheet.Proofs.Number.Reading

/-!
# The range of the doubles

Every number between the smallest double with all its bits and the largest
double rounds to a double (`Binary.exists_rounds`). So two doubles whose product
or quotient is in this range have a double for it (`Binary.IsDouble.exists_mul`,
`Binary.IsDouble.exists_div`), and nothing overflows.

What is known of the exact result is known of the double, up to one rounding: a
power of two that is below the one is below the other
(`Binary.Rounds.zpow_le_toRat`), and the double exceeds the exact result by a
factor of `slack` at most (`Binary.Rounds.toRat_le`).
-/

namespace Worksheet.Number.Binary

variable {b b₁ b₂ : Binary} {x : ℚ}

def smallest : ℚ :=
  2 ^ (-1022 : ℤ)

def largest : ℚ :=
  (2 ^ 53 - 1) * 2 ^ (971 : ℤ)

/-- How much a number grows by a rounding, at most, as a factor. -/
def slack : ℚ :=
  1 + 1 / 2 ^ 52

theorem smallest_pos : 0 < smallest := by
  unfold smallest
  positivity

theorem one_le_slack : 1 ≤ slack := by
  unfold slack
  norm_num

theorem largest_lt : largest < 2 ^ (1024 : ℤ) := by
  have hpow : (0 : ℚ) < 2 ^ (971 : ℤ) := by positivity
  have hsplit : (2 : ℚ) ^ (1024 : ℤ) = 2 ^ 53 * 2 ^ (971 : ℤ) := by
    rw [← zpow_natCast, ← zpow_add₀ two_ne_zero]
    norm_num
  rw [hsplit, largest]
  exact mul_lt_mul_of_pos_right (sub_lt_self _ one_pos) hpow

/-! ## The nearest whole number -/

/-- **Every number has a nearest whole number**, and an even one if there are
two. -/
theorem exists_nearest {y : ℚ} (h : 0 ≤ y) :
    ∃ n : ℕ, n - 1 / 2 ≤ y ∧ y ≤ n + 1 / 2 ∧
      (n % 2 = 1 → n - 1 / 2 < y ∧ y < n + 1 / 2) := by
  have hfloor : (⌊y⌋₊ : ℚ) ≤ y := Nat.floor_le h
  have hceil : y < ⌊y⌋₊ + 1 := Nat.lt_floor_add_one y
  have hnext : ((⌊y⌋₊ + 1 : ℕ) : ℚ) = ⌊y⌋₊ + 1 := Nat.cast_succ _
  rcases lt_trichotomy (y - ⌊y⌋₊) (1 / 2) with hlt | heq | hgt
  · exact ⟨⌊y⌋₊, by linarith, by linarith, fun _ => ⟨by linarith, by linarith⟩⟩
  · -- a half: the even neighbour
    rcases Nat.mod_two_eq_zero_or_one ⌊y⌋₊ with heven | hodd
    · exact ⟨⌊y⌋₊, by linarith, by linarith, fun hodd => by omega⟩
    · exact ⟨⌊y⌋₊ + 1, by linarith, by linarith, fun hodd' => by omega⟩
  · exact ⟨⌊y⌋₊ + 1, by linarith, by linarith, fun _ => ⟨by linarith, by linarith⟩⟩

/-! ## Rounding

The exponent is at first left free (`exists_isUnbounded`). A number is cut in
units of its last place (`exists_unit`), and the nearest whole number of units
is the significand, unless the rounding carries into one more bit. -/

/-- A significand that is nearest in its unit is that of the double which the
number rounds to. -/
theorem rounds_of_nearest {n : ℕ} {exponent : ℤ} {y : ℚ} (hlow : n - 1 / 2 ≤ y)
    (hhigh : y ≤ n + 1 / 2) (hodd : n % 2 = 1 → n - 1 / 2 < y ∧ y < n + 1 / 2)
    (hnormal : n = 2 ^ 52 → -1074 < exponent → 2 ^ 52 ≤ y) :
    (⟨n, exponent⟩ : Binary).Rounds (y * 2 ^ exponent) := by
  have hpow : (0 : ℚ) < 2 ^ exponent := by positivity
  have hbelow : (n : ℚ) - (⟨n, exponent⟩ : Binary).below ≤ y
      ∧ (n % 2 = 1 → n - (⟨n, exponent⟩ : Binary).below < y) := by
    by_cases hpower : n = 2 ^ 52 ∧ -1074 < exponent
    · have hle : (n : ℚ) ≤ y := by
        rw [hpower.1]
        exact_mod_cast hnormal hpower.1 hpower.2
      have hpos := (⟨n, exponent⟩ : Binary).below_pos
      exact ⟨by linarith, fun _ => by linarith⟩
    · have hhalf : (⟨n, exponent⟩ : Binary).below = 1 / 2 := if_neg hpower
      rw [hhalf]
      exact ⟨hlow, fun h => (hodd h).1⟩
  unfold Rounds lowest highest
  dsimp only
  split
  · exact ⟨mul_le_mul_of_nonneg_right hbelow.1 hpow.le, mul_le_mul_of_nonneg_right hhigh hpow.le⟩
  · have hone : n % 2 = 1 := by omega
    exact ⟨mul_lt_mul_of_pos_right (hbelow.2 hone) hpow,
      mul_lt_mul_of_pos_right (hodd hone).2 hpow⟩

/-- A number in units of the last place it is rounded to: it has at most 53 bits
before the point, and all of them unless the unit is the smallest. -/
theorem exists_unit (h : 2 ^ (-1075 : ℤ) < x) :
    ∃ (unit : ℤ) (y : ℚ), x = y * 2 ^ unit ∧ -1074 ≤ unit ∧ 1 / 2 < y ∧ y < 2 ^ 53 ∧
      (2 ^ 52 ≤ y ∨ unit = -1074) := by
  have hpositive : (0 : ℚ) < 2 ^ (-1075 : ℤ) := by positivity
  obtain ⟨k, hk, hk'⟩ := exists_mem_Ico_zpow (hpositive.trans h) one_lt_two
  -- the unit that leaves fifty-three bits before the point, or the least one
  -- there is
  obtain ⟨unit, hunit⟩ : ∃ unit, unit = max (k - 52) (-1074) := ⟨_, rfl⟩
  have hpow : (0 : ℚ) < 2 ^ unit := by positivity
  have hscaled : ∀ n : ℕ, (2 : ℚ) ^ (n : ℤ) * 2 ^ unit = 2 ^ (n + unit) := fun n =>
    (zpow_add₀ two_ne_zero _ _).symm
  refine ⟨unit, x / 2 ^ unit, (div_mul_cancel₀ x hpow.ne').symm, by omega, ?_, ?_, ?_⟩
  · rw [lt_div_iff₀ hpow]
    by_cases hsmall : unit = -1074
    · calc 1 / 2 * (2 : ℚ) ^ unit = 2 ^ (-1075 : ℤ) := by
            rw [hsmall, show (-1075 : ℤ) = -1 + -1074 from rfl, zpow_add₀ two_ne_zero]
            norm_num
        _ < x := h
    · calc 1 / 2 * (2 : ℚ) ^ unit < 2 ^ ((0 : ℕ) : ℤ) * 2 ^ unit := by
            rw [Nat.cast_zero, zpow_zero]
            linarith
        _ = 2 ^ (((0 : ℕ) : ℤ) + unit) := hscaled 0
        _ ≤ 2 ^ k := zpow_le_zpow_right₀ one_le_two (by omega)
        _ ≤ x := hk
  · rw [div_lt_iff₀ hpow, ← zpow_natCast, hscaled]
    exact hk'.trans_le (zpow_le_zpow_right₀ one_le_two (by omega))
  · by_cases hsmall : unit = -1074
    · exact .inr hsmall
    · left
      rw [le_div_iff₀ hpow, ← zpow_natCast, hscaled]
      exact (zpow_le_zpow_right₀ one_le_two (by omega)).trans hk

/-- **Every number that is not too small rounds to a double**, if its exponent
may be as large as one likes. In its unit (`exists_unit`) it has a nearest
significand, and where that is `2 ^ 53` the next exponent is taken. -/
theorem exists_isUnbounded (h : 2 ^ (-1075 : ℤ) < x) :
    ∃ b : Binary, b.IsUnbounded ∧ b.Rounds x := by
  obtain ⟨unit, y, rfl, hmin, hhalf, hlt, hnormal⟩ := exists_unit h
  have hpow : (0 : ℚ) < 2 ^ unit := by positivity
  obtain ⟨n, hbelow, habove, hodd⟩ := exists_nearest (by linarith : 0 ≤ y)
  -- more than half a unit never rounds to zero
  have hpos : 0 < n := by
    refine Nat.pos_of_ne_zero fun hzero => ?_
    rw [hzero, Nat.cast_zero] at habove
    linarith
  have hbits : n ≤ 2 ^ 53 := by
    by_contra hlarge
    have hcast : (2 : ℚ) ^ 53 + 1 ≤ n := by exact_mod_cast not_le.1 hlarge
    linarith
  rcases hbits.lt_or_eq with hbits | hcarry
  · refine ⟨⟨n, unit⟩, ⟨hpos, hbits, hmin, hnormal.imp_left fun hle => ?_⟩,
      rounds_of_nearest hbelow habove hodd fun _ hunit => hnormal.resolve_right hunit.ne'⟩
    by_contra hsmall
    have hcast : (n : ℚ) + 1 ≤ 2 ^ 52 := by exact_mod_cast not_le.1 hsmall
    linarith
  · -- all bits carry: the power of two above
    subst hcarry
    push_cast at hbelow
    have hquarter : (⟨2 ^ 52, unit + 1⟩ : Binary).below = 1 / 4 :=
      if_pos ⟨rfl, show -1074 < unit + 1 by omega⟩
    refine ⟨⟨2 ^ 52, unit + 1⟩, ⟨Nat.two_pow_pos 52, show 2 ^ 52 < 2 ^ 53 by decide,
      show -1074 ≤ unit + 1 by omega, .inl le_rfl⟩, ?_⟩
    unfold Rounds lowest highest
    rw [if_pos (show 2 ^ 52 % 2 = 0 by decide), hquarter]
    dsimp only
    rw [zpow_add_one₀ two_ne_zero]
    push_cast
    constructor <;> nlinarith only [hbelow, hlt, hpow]

/-! ## Overflow

Which exponents are too large is decided after the rounding. `overflow` is the
midpoint between the largest double and the power of two that would come next,
and it is the least number with a significand past the range. -/

/-- The smallest number that is too large for every double. It is no nearer to
the largest one than to the power of two after it. -/
def overflow : ℚ :=
  (2 ^ 53 - 1 / 2) * 2 ^ (971 : ℤ)

theorem largest_lt_overflow : largest < overflow :=
  mul_lt_mul_of_pos_right (by norm_num) (by positivity)

theorem quarter_le_below (b : Binary) : 1 / 4 ≤ b.below := by
  unfold below
  split <;> norm_num

/-- Down from a double with all its bits there is room for two halves of a unit,
or for two quarters at a power of two. -/
theorem IsUnbounded.below_le_significand (h : b.IsUnbounded) (hexponent : -1074 < b.exponent) :
    2 ^ 52 + 2 * b.below ≤ b.significand + 1 / 2 := by
  rcases (h.normal.resolve_right hexponent.ne').lt_or_eq with hlt | heq
  · have hcast : (2 : ℚ) ^ 52 + 1 ≤ b.significand := by exact_mod_cast hlt
    linarith [b.below_le]
  · have hquarter : b.below = 1 / 4 := if_pos ⟨heq.symm, hexponent⟩
    have hcast : (2 : ℚ) ^ 52 = b.significand := by exact_mod_cast heq
    rw [hquarter]
    linarith

/-- **What rounds to a larger exponent is too large.** -/
theorem Rounds.overflow_le (h : b.Rounds x) (hb : b.IsUnbounded) (hexponent : 971 < b.exponent) :
    overflow ≤ x := by
  have hbelow : (2 : ℚ) ^ 52 - 1 / 4 ≤ b.significand - b.below := by
    linarith [hb.below_le_significand (by omega), b.quarter_le_below]
  calc overflow = (2 ^ 52 - 1 / 4) * 2 ^ (972 : ℤ) := by
        unfold overflow
        rw [show (972 : ℤ) = 971 + 1 from rfl, zpow_add_one₀ two_ne_zero]
        ring
    _ ≤ (b.significand - b.below) * 2 ^ b.exponent :=
        mul_le_mul hbelow (zpow_le_zpow_right₀ one_le_two hexponent) (by positivity)
          (by linarith)
    _ ≤ x := h.lowest_le

/-- **What rounds to a double is not too large.** -/
theorem Rounds.lt_overflow (h : b.Rounds x) (hb : b.IsDouble) : x < overflow := by
  have hbits : (b.significand : ℚ) + 1 ≤ 2 ^ 53 := by exact_mod_cast hb.lt
  have hpow : (2 : ℚ) ^ b.exponent ≤ 2 ^ (971 : ℤ) :=
    zpow_le_zpow_right₀ one_le_two hb.exponent_le
  have hhighest : b.highest ≤ overflow :=
    mul_le_mul (by linarith) hpow (by positivity) (by norm_num)
  unfold Rounds at h
  split at h
  · -- an even significand is not the largest one
    rename_i heven
    have heven' : (b.significand : ℚ) + 2 ≤ 2 ^ 53 := by
      have hlt := hb.lt
      have : b.significand + 2 ≤ 2 ^ 53 := by omega
      exact_mod_cast this
    refine h.2.trans_lt (lt_of_lt_of_le (b := (2 ^ 53 - 1 / 2) * 2 ^ b.exponent) ?_ ?_)
    · exact mul_lt_mul_of_pos_right (by linarith) (by positivity)
    · exact mul_le_mul_of_nonneg_left hpow (by norm_num)
  · exact h.2.trans_le hhighest

/-- **Every number in the range rounds to a double.** It is not too large for
one, so the exponent is not either. -/
theorem exists_rounds (hlow : smallest ≤ x) (hhigh : x ≤ largest) :
    ∃ b : Binary, b.IsDouble ∧ b.Rounds x := by
  have hsmall : (2 : ℚ) ^ (-1075 : ℤ) < smallest := zpow_lt_zpow_right₀ one_lt_two (by decide)
  obtain ⟨b, hb, hrounds⟩ := exists_isUnbounded (hsmall.trans_le hlow)
  refine ⟨b, hb.isDouble (not_lt.1 fun hexponent => ?_), hrounds⟩
  exact absurd (hhigh.trans_lt largest_lt_overflow) (not_lt.2 (hrounds.overflow_le hb hexponent))

/-! ## Bounds

What a rounding changes is stated as a factor, so that a chain of products
multiplies its factors (`Rounds.toRat_le`). Powers of two are never crossed,
since each is a double itself. -/

theorem Rounds.lt_exponent (h : b.Rounds x) (hb : b.IsDouble) {k : ℤ} (hx : 2 ^ k ≤ x) :
    k < b.exponent + 53 :=
  (zpow_lt_zpow_iff_right₀ one_lt_two).1 (hx.trans_lt (h.lt_zpow hb.isUnbounded))

theorem Rounds.normal (h : b.Rounds x) (hb : b.IsDouble) {k : ℤ} (hk : -1022 < k)
    (hx : 2 ^ k ≤ x) : 2 ^ 52 ≤ b.significand := by
  have hlt := h.lt_exponent hb hx
  exact hb.normal.resolve_right (by omega)

/-- **A power of two below a number is below the double** it rounds to. -/
theorem Rounds.zpow_le_toRat (h : b.Rounds x) (hb : b.IsDouble) {k : ℤ} (hk : -1022 < k)
    (hx : 2 ^ k ≤ x) : 2 ^ k ≤ b.toRat := by
  have hlt := h.lt_exponent hb hx
  have hnormal : ((2 ^ 52 : ℕ) : ℚ) ≤ b.significand := Nat.cast_le.2 (h.normal hb hk hx)
  calc (2 : ℚ) ^ k ≤ 2 ^ ((52 : ℕ) + b.exponent) :=
        zpow_le_zpow_right₀ one_le_two (by omega)
    _ = (2 ^ 52 : ℕ) * 2 ^ b.exponent := by
        rw [zpow_add₀ two_ne_zero, zpow_natCast]
        push_cast
        rfl
    _ ≤ b.toRat := mul_le_mul_of_nonneg_right hnormal (by positivity)

/-- **A double exceeds what rounds to it** by one rounding at most. -/
theorem Rounds.toRat_le (h : b.Rounds x) (hnormal : 2 ^ 52 ≤ b.significand) :
    b.toRat ≤ x * slack := by
  have hpow : (0 : ℚ) < 2 ^ b.exponent := by positivity
  have hcast : (2 : ℚ) ^ 52 ≤ b.significand := by exact_mod_cast hnormal
  have hlow : (b.significand - 1 / 2) * 2 ^ b.exponent ≤ x := by
    refine le_trans ?_ h.lowest_le
    exact mul_le_mul_of_nonneg_right (by linarith [b.below_le]) hpow.le
  calc b.toRat = b.significand * 2 ^ b.exponent := rfl
    _ ≤ (b.significand - 1 / 2) * slack * 2 ^ b.exponent := by
        refine mul_le_mul_of_nonneg_right ?_ hpow.le
        unfold slack
        linarith
    _ = (b.significand - 1 / 2) * 2 ^ b.exponent * slack := by ring
    _ ≤ x * slack := mul_le_mul_of_nonneg_right hlow (one_le_slack.trans' zero_le_one)

theorem IsDouble.toRat_le_largest (h : b.IsDouble) : b.toRat ≤ largest := by
  have hbits : (b.significand : ℚ) ≤ 2 ^ 53 - 1 := by
    have : (b.significand : ℚ) + 1 ≤ 2 ^ 53 := by exact_mod_cast h.lt
    linarith
  exact mul_le_mul hbits (zpow_le_zpow_right₀ one_le_two h.exponent_le) (by positivity)
    (by norm_num)

theorem IsDouble.toRat_pos (h : b.IsDouble) : 0 < b.toRat :=
  mul_pos (Nat.cast_pos.2 h.pos) (by positivity)

/-! ## Products and quotients in the range -/

/-- **A product in the range is a double**, the one that the exact product
rounds to. -/
theorem IsDouble.exists_mul (h₁ : b₁.IsDouble) (h₂ : b₂.IsDouble)
    (hlow : smallest ≤ b₁.toRat * b₂.toRat) (hhigh : b₁.toRat * b₂.toRat ≤ largest) :
    ∃ (b : Binary) (h : b.IsDouble), h₁.toFloat * h₂.toFloat = h.toFloat
      ∧ b.Rounds (b₁.toRat * b₂.toRat) := by
  obtain ⟨b, h, hrounds⟩ := exists_rounds hlow hhigh
  exact ⟨b, h, h.mul_eq h₁ h₂ hrounds, hrounds⟩

/-- **A quotient in the range is a double**, the one that the exact quotient
rounds to. -/
theorem IsDouble.exists_div (h₁ : b₁.IsDouble) (h₂ : b₂.IsDouble)
    (hlow : smallest ≤ b₁.toRat / b₂.toRat) (hhigh : b₁.toRat / b₂.toRat ≤ largest) :
    ∃ (b : Binary) (h : b.IsDouble), h₁.toFloat / h₂.toFloat = h.toFloat
      ∧ b.Rounds (b₁.toRat / b₂.toRat) := by
  obtain ⟨b, h, hrounds⟩ := exists_rounds hlow hhigh
  exact ⟨b, h, h.div_eq h₁ h₂ hrounds, hrounds⟩

end Worksheet.Number.Binary
