import Mathlib.Data.List.DropRight
import Worksheet.Format.General
import Worksheet.Proofs.Number.Powers
import Worksheet.Proofs.Number.Unsigned

/-!
# What the general format writes

A finite number that is not too small is written as digits with the point of its
locale, and as nothing else; a very large or a very small one has an exponent
behind them (`Format.General.exists_written`). The exponent has its symbol from
the locale as well, but its sign is always a plus or a minus, whatever the signs
of the locale are.

Without an exponent no number is lost on the way to its text. With one it is
divided by the power of ten of its leading digit, which has to be a double for
that: this is where numbers below `1e-300` are left out.
-/

namespace Worksheet.Format.General

open Number Binary

variable {signs : NumberSigns}

/-- Digits with the point of a locale, or without one when there is nothing
behind it. -/
def pointedBy (signs : NumberSigns) (whole fraction : List Char) : List Char :=
  whole ++ if fraction = [] then [] else signs.decimalPoint :: fraction

/-- **Texts of the general format**: digits with a point, and behind them an
exponent with a sign of its own or nothing. The index is that sign, so that a
text with an exponent can be told from one without. -/
inductive Written (signs : NumberSigns) : Option Char → List Char → Prop
  | plain {whole fraction : List Char} (h : Digits whole fraction) :
      Written signs none (pointedBy signs whole fraction)
  | scientific {whole fraction exponent : List Char} (h : Digits whole fraction) (sign : Char)
      (hsome : exponent ≠ []) (hdigits : ∀ c ∈ exponent, c.isDigit = true) :
      Written signs (some sign)
        (pointedBy signs whole fraction ++ signs.exponentSymbol ++ sign :: exponent)

/-! ## Trimming -/

theorem dropTrailing_append_cons {p : Char → Bool} {c : Char} (hc : p c = false)
    (front rest : List Char) :
    Text.dropTrailing p (front ++ c :: rest) = front ++ c :: Text.dropTrailing p rest := by
  have hstops : Text.Stops p (c :: front.reverse) := Text.stops_cons.2 hc
  rw [Text.dropTrailing, Text.dropTrailing, List.reverse_append, List.reverse_cons,
    List.append_assoc, List.singleton_append, Text.dropWhile_append_of_stops _ hstops,
    List.reverse_append, List.reverse_cons, List.reverse_reverse, List.append_assoc,
    List.singleton_append]

theorem dropTrailing_point {digits : List Char} (h : ∀ c ∈ digits, c.isDigit = true) :
    Text.dropTrailing (· == '.') digits = digits := by
  refine List.rdropWhile_eq_self_iff.2 fun hsome => ?_
  have hlast := bne_point_of_isDigit (h _ (List.getLast_mem hsome))
  simpa using hlast

theorem digits_dropTrailing {whole fraction : List Char} (h : Digits whole fraction) :
    Digits whole (Text.dropTrailing (· == '0') fraction) := by
  refine ⟨h.whole_ne_nil, fun c hc => h.isDigit c ?_⟩
  rcases List.mem_append.1 hc with hc | hc
  · exact List.mem_append_left _ hc
  · exact List.mem_append_right _ ((List.rdropWhile_prefix (· == '0') fraction).subset hc)

/-- **A decimal is trimmed** to its digits, without a point when none are left
behind it. -/
theorem trimFraction_eq {whole fraction : List Char} (h : Digits whole fraction) :
    trimFraction (whole ++ '.' :: fraction)
      = pointed whole (Text.dropTrailing (· == '0') fraction) := by
  have hdigits := (digits_dropTrailing h).isDigit
  have hcontains : (whole ++ '.' :: fraction).contains '.' = true :=
    List.contains_iff_mem.2 (List.mem_append_right _ List.mem_cons_self)
  rw [trimFraction, if_pos hcontains, dropTrailing_append_cons rfl, pointed]
  generalize Text.dropTrailing (· == '0') fraction = kept at hdigits
  rcases List.eq_nil_or_concat kept with rfl | ⟨others, last, rfl⟩
  · have hwhole : ∀ c ∈ whole, c.isDigit = true := fun c hc =>
      hdigits c (List.mem_append_left _ hc)
    rw [if_pos rfl, List.append_nil]
    exact (List.rdropWhile_concat_pos (· == '.') whole '.' rfl).trans (dropTrailing_point hwhole)
  · have hlast : ¬(last == '.') = true := by
      simpa using bne_point_of_isDigit (hdigits last (by simp))
    rw [if_neg (by simp), List.concat_eq_append, ← List.cons_append, ← List.append_assoc]
    exact List.rdropWhile_concat_neg (· == '.') _ last hlast

theorem trimFraction_of_isDigit {digits : List Char} (h : ∀ c ∈ digits, c.isDigit = true) :
    trimFraction digits = digits := by
  refine if_neg fun hpoint => ?_
  have hdigit := bne_point_of_isDigit (h '.' (List.contains_iff_mem.1 hpoint))
  simp at hdigit

theorem withPoint_pointed {whole fraction : List Char} (h : Digits whole fraction) :
    withPoint signs (pointed whole fraction) = pointedBy signs whole fraction := by
  have hself : ∀ digits : List Char, (∀ c ∈ digits, c.isDigit = true) →
      withPoint signs digits = digits := by
    intro digits hdigits
    refine (List.map_congr_left fun c hc => if_neg ?_).trans (List.map_id digits)
    exact bne_iff_ne.1 (bne_point_of_isDigit (hdigits c hc))
  have hwhole := hself whole fun c hc => h.isDigit c (List.mem_append_left _ hc)
  have hfraction := hself fraction fun c hc => h.isDigit c (List.mem_append_right _ hc)
  unfold withPoint at hwhole hfraction ⊢
  rw [pointed, pointedBy, List.map_append, hwhole]
  split
  · rfl
  · rw [List.map_cons, if_pos rfl, hfraction]

/-! ## Digits of a size -/

theorem fixedDigits_ne_nil (places : ℕ) (b : Binary) : (fixedDigits places b).1 ≠ [] := by
  refine List.ne_nil_of_length_pos ?_
  rw [fixedDigits, List.splitAt_eq]
  dsimp only
  have hpadded := Text.le_length_padLeft (places + 1) '0'
    (Text.ofNat (roundHalfEven (b.num * 10 ^ places) b.den))
  rw [List.length_take, Text.ofNatPadded]
  omega

/-- **A finite number with fixed places** is written as digits with a point once
it is trimmed. All forms of the general format, the mantissa included, are of
this kind. -/
theorem exists_trimmed (signs : NumberSigns) {size : Float} (hfinite : size.isFinite = true)
    (hsigned : isSigned size = false) (places : ℕ) :
    ∃ whole fraction, Digits whole fraction
      ∧ withPoint signs (trimFraction (fixedText places size))
        = pointedBy signs whole fraction := by
  rw [fixedText_eq places hfinite hsigned]
  generalize magnitude size = b
  have hdigits : Digits (fixedDigits places b).1 (fixedDigits places b).2 :=
    ⟨fixedDigits_ne_nil places b, fun c hc => isDigit_of_mem_fixedDigits (List.mem_append.1 hc)⟩
  obtain ⟨kept, hkept, htrimmed⟩ : ∃ kept, Digits (fixedDigits places b).1 kept
      ∧ trimFraction ((fixedDigits places b).1
          ++ if places = 0 then [] else '.' :: (fixedDigits places b).2)
        = pointed (fixedDigits places b).1 kept := by
    split
    · have hwhole : ∀ c ∈ (fixedDigits places b).1, c.isDigit = true := fun c hc =>
        hdigits.isDigit c (List.mem_append_left _ hc)
      refine ⟨[], ⟨hdigits.whole_ne_nil, by rwa [List.append_nil]⟩, ?_⟩
      rw [List.append_nil, trimFraction_of_isDigit hwhole, pointed, if_pos rfl, List.append_nil]
    · exact ⟨_, digits_dropTrailing hdigits, trimFraction_eq hdigits⟩
  exact ⟨_, kept, hkept, by rw [htrimmed, withPoint_pointed hkept]⟩

/-! ## The limits

Which form a number has is decided by comparing it with `upperLimit`,
`lowerLimit` and `exactLimit`. All three are doubles, so it is decided by
comparing exact numbers. -/

section

variable {b : Binary} {limit : Float}

/-- A double reaches a limit when its number does. The three limits of the
format are doubles, so the comparison of doubles is one of rational numbers. -/
theorem limit_le_iff (hlimit : (magnitude limit).IsDouble) (hsign : isSigned limit = false)
    (h : b.IsDouble) : limit ≤ h.toFloat ↔ (magnitude limit).toRat ≤ b.toRat := by
  conv_lhs => rw [← toFloat_magnitude hsign hlimit]
  exact hlimit.le_iff h

theorem lt_limit_iff (hlimit : (magnitude limit).IsDouble) (hsign : isSigned limit = false)
    (h : b.IsDouble) : h.toFloat < limit ↔ b.toRat < (magnitude limit).toRat := by
  conv_lhs => rw [← toFloat_magnitude hsign hlimit]
  exact h.lt_iff hlimit

theorem not_lt_limit_iff (hlimit : (magnitude limit).IsDouble) (hsign : isSigned limit = false)
    (h : b.IsDouble) : ¬h.toFloat < limit ↔ limit ≤ h.toFloat := by
  rw [lt_limit_iff hlimit hsign h, limit_le_iff hlimit hsign h, not_lt]

theorem isDouble_upperLimit : (magnitude upperLimit).IsDouble :=
  isDouble_magnitude (by decide) (by decide)

theorem isDouble_lowerLimit : (magnitude lowerLimit).IsDouble :=
  isDouble_magnitude (by decide) (by decide)

theorem isDouble_exactLimit : (magnitude exactLimit).IsDouble :=
  isDouble_magnitude (by decide +kernel) (by decide +kernel)

theorem isSigned_exactLimit : isSigned exactLimit = false := by
  decide +kernel

/-- A number that is large enough to be written with an exponent is at least
`2 ^ 24`, of which only that it is above ten is needed later. -/
theorem zpow_le_of_upperLimit_le (h : b.IsDouble) (hle : upperLimit ≤ h.toFloat) :
    2 ^ (24 : ℤ) ≤ b.toRat := by
  have hmagnitude : magnitude upperLimit = ⟨6553600000000000, -16⟩ := by decide
  refine le_trans ?_ ((limit_le_iff isDouble_upperLimit (by decide) h).1 hle)
  rw [hmagnitude, toRat]
  norm_num

/-- A number that is small enough to be written with an exponent is below a
hundredth. -/
theorem toRat_lt_of_lt_lowerLimit (h : b.IsDouble) (hlt : h.toFloat < lowerLimit) :
    b.toRat < 10 ^ (-2 : ℤ) := by
  have hmagnitude : magnitude lowerLimit = ⟨4835703278458517, -82⟩ := by decide
  refine ((lt_limit_iff isDouble_lowerLimit (by decide) h).1 hlt).trans ?_
  rw [hmagnitude, toRat]
  norm_num

theorem toRat_lt_of_lt_exactLimit (h : b.IsDouble) (hlt : h.toFloat < exactLimit) :
    b.toRat < 2 ^ (-996 : ℤ) := by
  have hmagnitude : magnitude exactLimit = ⟨6032057205060441, -1049⟩ := by decide +kernel
  refine ((lt_limit_iff isDouble_exactLimit isSigned_exactLimit h).1 hlt).trans ?_
  have hpow : (2 : ℚ) ^ (-996 : ℤ) = 2 ^ (53 : ℤ) * 2 ^ (-1049 : ℤ) := by
    rw [← zpow_add₀ two_ne_zero]
    rfl
  rw [hmagnitude, toRat, hpow]
  exact mul_lt_mul_of_pos_right (by norm_num) (by positivity)

theorem lt_lowerLimit_of_lt_exactLimit (h : b.IsDouble) (hlt : h.toFloat < exactLimit) :
    h.toFloat < lowerLimit := by
  have hmagnitude : magnitude lowerLimit = ⟨4835703278458517, -82⟩ := by decide
  refine (lt_limit_iff isDouble_lowerLimit (by decide) h).2 ?_
  calc b.toRat < 2 ^ (-996 : ℤ) := toRat_lt_of_lt_exactLimit h hlt
    _ ≤ 2 ^ (-30 : ℤ) := zpow_le_zpow_right₀ one_le_two (by decide)
    _ ≤ (magnitude lowerLimit).toRat := by
      rw [hmagnitude, toRat]
      norm_num

/-- The exact limit is no smaller than the number it is written as, although it
is a double near it. -/
theorem zpow_le_of_exactLimit_le (h : b.IsDouble) (hle : exactLimit ≤ h.toFloat) :
    10 ^ (-300 : ℤ) ≤ b.toRat := by
  have hmagnitude : magnitude exactLimit = ⟨6032057205060441, -1049⟩ := by decide +kernel
  refine le_trans ?_ ((limit_le_iff isDouble_exactLimit isSigned_exactLimit h).1 hle)
  rw [hmagnitude, toRat, zpow_neg, zpow_neg, inv_le_iff_one_le_mul₀ (by positivity),
    mul_assoc, inv_mul_eq_div, mul_div_assoc', le_div_iff₀ (by positivity), one_mul]
  calc (2 : ℚ) ^ (1049 : ℤ) = (2 ^ 200) ^ 5 * 2 ^ 49 := by
        rw [← pow_mul, ← pow_add]
        rfl
    _ ≤ 6032057205060441 * (10 ^ 150) ^ 2 := by norm_num
    _ = _ := by
        rw [← pow_mul]
        rfl

/-- From the exact limit on, the exponent is that of the leading digit; no
logarithm is asked. -/
theorem exponentOf_eq (h : b.IsDouble) (hle : exactLimit ≤ h.toFloat) :
    exponentOf h.toFloat = leadingExponent b.num b.den := by
  rw [exponentOf, if_neg ((not_lt_limit_iff isDouble_exactLimit isSigned_exactLimit h).2 hle),
    h.magnitude_toFloat]

/-! ## Exponents

The exponent may be one more than that of the leading digit, when the mantissa
is rounded up to ten. It is written with a sign that is the same in every
locale, and `exponent_sign` says which one, by the size of the number alone. -/

/-- The sign of an exponent follows the size, also when the mantissa is rounded
up to ten: a large number has an exponent of one or more, and a small one of
minus two or less before the rounding. -/
theorem exponent_sign (h : b.IsDouble) {sign : Char}
    (hsign : upperLimit ≤ h.toFloat ∧ sign = '+' ∨ h.toFloat < lowerLimit ∧ sign = '-')
    {exponent : ℤ} (hexponent : exponent = leadingExponent b.num b.den
      ∨ exponent = leadingExponent b.num b.den + 1) :
    (if exponent < 0 then '-' else '+') = sign := by
  have hten : (1 : ℚ) < 10 := by norm_num
  rcases hsign with ⟨hle, rfl⟩ | ⟨hlt, rfl⟩
  · have hone : (10 : ℚ) ^ (0 : ℤ) ≤ b.toRat :=
      (one_le_zpow₀ one_le_two (by decide)).trans (zpow_le_of_upperLimit_le h hle)
    have hpos := (zpow_lt_zpow_iff_right₀ hten).1 (hone.trans_lt h.lt_zpow_leadingExponent)
    exact if_neg (by omega)
  · have hneg := (zpow_lt_zpow_iff_right₀ hten).1
      (h.zpow_leadingExponent_le.trans_lt (toRat_lt_of_lt_lowerLimit h hlt))
    exact if_pos (by omega)

/-- **A mantissa is written with its exponent**, and a sign of its own for that:
it is always an ASCII plus or minus, while the symbol in front of it is that of
the locale. -/
theorem written_mantissa (signs : NumberSigns) {mantissa : Float}
    (hfinite : mantissa.isFinite = true) (hsigned : isSigned mantissa = false) (exponent : ℤ) :
    Written signs (some (if exponent < 0 then '-' else '+'))
      (withPoint signs (trimFraction (fixedText mantissaPlaces mantissa)) ++ signs.exponentSymbol
        ++ (if exponent < 0 then '-' else '+') :: Text.ofNatPadded 2 exponent.natAbs) := by
  obtain ⟨whole, fraction, hdigits, htext⟩ := exists_trimmed signs hfinite hsigned mantissaPlaces
  rw [htext]
  refine .scientific hdigits _ ?_ fun c hc => Text.isDigit_of_mem_ofNatPadded hc
  exact List.append_ne_nil_of_right_ne_nil _ (Text.ofNat_ne_nil _)

/-- **A very large or very small number** is written with an exponent, as long
as it is not below the exact limit, where the power of ten could fail to be a
double. -/
theorem written_scientific (h : b.IsDouble) (hexact : exactLimit ≤ h.toFloat) {sign : Char}
    (hsign : upperLimit ≤ h.toFloat ∧ sign = '+' ∨ h.toFloat < lowerLimit ∧ sign = '-') :
    Written signs (some sign) (scientific signs h.toFloat) := by
  have hfar : b.toRat < 1 ∨ 2 ^ (24 : ℤ) ≤ b.toRat := by
    rcases hsign with ⟨hle, -⟩ | ⟨hlt, -⟩
    · exact .inr (zpow_le_of_upperLimit_le h hle)
    · exact .inl ((toRat_lt_of_lt_lowerLimit h hlt).trans (by norm_num))
  obtain ⟨m, hm, hmantissa, hlow⟩ :=
    exists_mantissa h (zpow_le_of_exactLimit_le h hexact) hfar
  -- rounding can carry the mantissa to ten; it is then printed divided by ten,
  -- under the next exponent
  obtain ⟨d, hd, hdivided⟩ := exists_div_ten hm hlow
  have hwritten : ∀ {mantissa : Binary} (hdouble : mantissa.IsDouble) {exponent : ℤ},
      (exponent = leadingExponent b.num b.den ∨ exponent = leadingExponent b.num b.den + 1) →
      Written signs (some sign)
        (withPoint signs (trimFraction (fixedText mantissaPlaces hdouble.toFloat))
          ++ signs.exponentSymbol
          ++ (if exponent < 0 then '-' else '+') :: Text.ofNatPadded 2 exponent.natAbs) := by
    intro mantissa hdouble exponent hexponent
    have hwritten := written_mantissa signs hdouble.isFinite_toFloat hdouble.isSigned_toFloat
      exponent
    rwa [exponent_sign h hsign hexponent] at hwritten ⊢
  rw [scientific]
  dsimp only
  rw [exponentOf_eq h hexact, hmantissa, hdivided]
  by_cases hcarry : (fixedText mantissaPlaces hm.toFloat).take 2 = ['1', '0']
  · rw [if_pos hcarry]
    exact hwritten hd (.inr rfl)
  · rw [if_neg hcarry]
    exact hwritten hm (.inl rfl)

end

/-! ## The text of a number -/

/-- The sign of the exponent a number is written with, if it has one. It depends
on the size only, which `exponent_sign` shows to agree with the exponent
itself. -/
def exponentSign? (value : Float) : Option Char :=
  if value == 0 then none
  else if upperLimit ≤ value.abs then some '+'
  else if value.abs < lowerLimit then some '-'
  else none

theorem eq_of_mem_exponentSign? {value : Float} {sign : Char} (h : sign ∈ exponentSign? value) :
    sign = '+' ∨ sign = '-' := by
  unfold exponentSign? at h
  split at h
  · cases h
  · split at h
    · exact .inl (Option.some.inj h).symm
    · split at h
      · exact .inr (Option.some.inj h).symm
      · cases h

/-- The text of a number without its sign. The four cases are those of the
format: zero, an exponent, a whole number and a decimal. -/
def sizeText (signs : NumberSigns) (value : Float) : List Char :=
  if value == 0 then ['0']
  else if (exponentSign? value).isSome then scientific signs value.abs
  else if fract value == 0 then Text.ofNat (magnitude value.abs).whole
  else plain signs value.abs

/-- **A finite number is written** as its size, and a sign in front of it or
none. A negative number that is rounded to zero has no sign, so the sign is not
said to be that of the number. -/
theorem format_eq_sizeText (signs : NumberSigns) {value : Float} (hfinite : value.isFinite = true) :
    format signs value = sizeText signs value
      ∨ format signs value = signs.negativeSign :: sizeText signs value := by
  obtain ⟨hnan, hinf⟩ := isNaN_isInf_of_isFinite hfinite
  rw [format, hnan, hinf, Bool.or_self, if_neg Bool.false_ne_true, sizeText]
  cases hzero : value == 0 with
  | true => exact .inl rfl
  | false =>
    have hdouble := isDouble_magnitude hfinite (significand_pos hzero)
    -- the three ways to print, in the order in which the sign of the exponent
    -- is asked for
    have hsize : (if fract value == 0 && value.abs < upperLimit then
          Text.ofNat (magnitude value.abs).whole
        else if upperLimit ≤ value.abs || value.abs < lowerLimit then scientific signs value.abs
        else plain signs value.abs)
        = if (exponentSign? value).isSome then scientific signs value.abs
          else if fract value == 0 then Text.ofNat (magnitude value.abs).whole
          else plain signs value.abs := by
      rw [exponentSign?, hzero, if_neg Bool.false_ne_true, abs_eq hdouble]
      by_cases hupper : upperLimit ≤ hdouble.toFloat
      · have hlarge : ¬hdouble.toFloat < upperLimit :=
          (not_lt_limit_iff isDouble_upperLimit (by decide) hdouble).2 hupper
        rw [decide_eq_false hlarge, Bool.and_false, decide_eq_true hupper, if_pos hupper]
        rfl
      · have hsmall : hdouble.toFloat < upperLimit := not_not.1
          (mt (not_lt_limit_iff isDouble_upperLimit (by decide) hdouble).1 hupper)
        rw [decide_eq_true hsmall, Bool.and_true, decide_eq_false hupper, Bool.false_or,
          if_neg hupper]
        by_cases hlower : hdouble.toFloat < lowerLimit
        · -- a number this small is not a whole one
          have hfract : fract value = value := by
            refine fract_eq_self hdouble ?_
            exact (toRat_lt_of_lt_lowerLimit hdouble hlower).trans (by norm_num)
          rw [hfract, hzero, decide_eq_true hlower, if_pos hlower]
          rfl
        · rw [decide_eq_false hlower, if_neg hlower]
          rfl
    dsimp only
    rw [hsize]
    by_cases hnegative : value < 0
    · exact .inr (if_pos hnegative)
    · exact .inl (if_neg hnegative)

/-- **What the general format writes**, for zero and for numbers from the exact
limit on: a text that is `Written`, with an exponent just when `exponentSign?`
has a sign. -/
theorem exists_written (signs : NumberSigns) {value : Float} (hfinite : value.isFinite = true)
    (hexact : (value == 0) = true ∨ exactLimit ≤ value.abs) :
    ∃ text, Written signs (exponentSign? value) text
      ∧ (format signs value = text ∨ format signs value = signs.negativeSign :: text) := by
  -- digits alone, which zero and the whole values are printed with
  have hsimple : ∀ {digits : List Char}, digits ≠ [] → (∀ c ∈ digits, c.isDigit = true) →
      Written signs none digits := by
    intro digits hsome hdigits
    have hwritten : Written signs none (pointedBy signs digits []) :=
      .plain ⟨hsome, by rwa [List.append_nil]⟩
    rwa [pointedBy, if_pos rfl, List.append_nil] at hwritten
  refine ⟨sizeText signs value, ?_, format_eq_sizeText signs hfinite⟩
  rw [sizeText, exponentSign?]
  cases hzero : value == 0 with
  | true => exact hsimple (List.cons_ne_nil _ _) (by simp)
  | false =>
    have hdouble := isDouble_magnitude hfinite (significand_pos hzero)
    have hle := hexact.resolve_left (by rw [hzero]; exact Bool.false_ne_true)
    rw [if_neg Bool.false_ne_true, if_neg Bool.false_ne_true]
    rw [abs_eq hdouble] at hle ⊢
    by_cases hupper : upperLimit ≤ hdouble.toFloat
    · rw [if_pos hupper]
      exact written_scientific hdouble hle (.inl ⟨hupper, rfl⟩)
    · rw [if_neg hupper]
      by_cases hlower : hdouble.toFloat < lowerLimit
      · rw [if_pos hlower]
        exact written_scientific hdouble hle (.inr ⟨hlower, rfl⟩)
      · rw [if_neg hlower, if_neg (by exact Bool.false_ne_true)]
        split
        · exact hsimple (Text.ofNat_ne_nil _) fun c hc => Text.isDigit_of_mem_ofNat hc
        · obtain ⟨whole, fraction, hdigits, htext⟩ := exists_trimmed signs
            hdouble.isFinite_toFloat hdouble.isSigned_toFloat
            (max 0 (min significantDigits
              (significantDigits - max 1 (exponentOf hdouble.toFloat + 1)))).toNat
          rw [plain, htext]
          exact .plain hdigits

end Worksheet.Format.General
