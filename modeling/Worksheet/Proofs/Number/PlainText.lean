import Worksheet.Proofs.Number.Reading
import Worksheet.Proofs.Number.Shortest

/-!
# A number is read back from its text

A finite number without a sign is written in digits, with a point and more
digits if it is not whole. Whatever reads those digits to the nearest double has
the number again (`plainText_eq`): the digits are the shortest decimal, with its
trailing zeros moved to the exponent, and the decimal rounds to the number.
-/

namespace Worksheet.Number

/-! ## The text of a decimal -/

theorem exists_dropTrailing_append (c : Char) (text : List Char) :
    ∃ count, text = Text.dropTrailing (· == c) text ++ List.replicate count c := by
  have hall : text.reverse.takeWhile (· == c)
      = List.replicate (text.reverse.takeWhile (· == c)).length c :=
    List.eq_replicate_iff.2 ⟨rfl, fun d hd => by simpa using List.mem_takeWhile_imp hd⟩
  refine ⟨(text.reverse.takeWhile (· == c)).length, ?_⟩
  rw [Text.dropTrailing, ← List.reverse_replicate, ← hall, ← List.reverse_append,
    List.takeWhile_append_dropWhile, List.reverse_reverse]

/-- Digits, with a point and further digits if there are any. -/
def pointed (whole fraction : List Char) : List Char :=
  whole ++ if fraction = [] then [] else '.' :: fraction

/-- The digits of a number before and after the point. There is no number
without a digit before it. -/
structure Digits (whole fraction : List Char) : Prop where
  /-- There is one before the point. -/
  whole_ne_nil : whole ≠ []
  /-- All of them are digits. -/
  isDigit : ∀ c ∈ whole ++ fraction, c.isDigit = true

/-- The decimal some digits stand for: as many of them as are behind the point
count down. -/
def ofPointed (whole fraction : List Char) : Decimal :=
  ⟨Text.digitsValue (whole ++ fraction), 0 - fraction.length⟩

theorem digitsValue_append_zeros (digits : List Char) (count : ℕ) :
    Text.digitsValue (digits ++ List.replicate count '0')
      = Text.digitsValue digits * 10 ^ count := by
  rw [Text.digitsValue_append, Text.digitsValue_replicate_zero, List.length_replicate, add_zero]

theorem isDigit_of_mem_zeros {count : ℕ} {c : Char} (h : c ∈ List.replicate count '0') :
    c.isDigit = true := by
  rw [List.eq_of_mem_replicate h]
  rfl

/-- Digits without a point have the value they have with zeros behind them. -/
theorem toRat_ofPointed_whole (digits : List Char) {exponent : ℤ} (h : 0 ≤ exponent) :
    (ofPointed (digits ++ List.replicate exponent.toNat '0') []).toRat
      = Text.digitsValue digits * 10 ^ exponent := by
  unfold ofPointed Decimal.toRat
  dsimp only
  rw [List.append_nil, digitsValue_append_zeros, List.length_nil, Nat.cast_zero, sub_zero,
    zpow_zero, mul_one, ← Int.toNat_of_nonneg h, zpow_natCast, Int.toNat_natCast]
  push_cast
  rfl

/-- Digits with zeros in front of them, and some of them behind a point. The
zeros do not change the value, and there are enough for a digit before the
point. -/
theorem pointed_padLeft (digits : List Char) {places : ℕ} (hplaces : places ≠ 0)
    (hdigits : ∀ c ∈ digits, c.isDigit = true) :
    ∃ whole fraction,
      (let padded := Text.padLeft (places + 1) '0' digits
       padded.take (padded.length - places) ++ '.' :: padded.drop (padded.length - places))
        = pointed whole fraction ∧ Digits whole fraction ∧
      (ofPointed whole fraction).toRat = Text.digitsValue digits * 10 ^ (-(places : ℤ)) := by
  have hlength := Text.le_length_padLeft (places + 1) '0' digits
  have hvalue : Text.digitsValue (Text.padLeft (places + 1) '0' digits)
      = Text.digitsValue digits := by
    rw [Text.padLeft, Text.digitsValue_append, Text.digitsValue_replicate_zero, zero_mul,
      zero_add]
  have hall : ∀ c ∈ Text.padLeft (places + 1) '0' digits, c.isDigit = true := by
    intro c hc
    exact (List.mem_append.1 hc).elim isDigit_of_mem_zeros (hdigits c)
  -- of the padded digits only their length, value and characters are needed
  generalize Text.padLeft (places + 1) '0' digits = padded at *
  have hdrop : (padded.drop (padded.length - places)).length = places := by
    rw [List.length_drop]
    omega
  refine ⟨padded.take (padded.length - places), padded.drop (padded.length - places), ?_,
    ⟨?_, ?_⟩, ?_⟩
  · have hne : padded.drop (padded.length - places) ≠ [] := fun h => by
      rw [h] at hdrop
      exact hplaces hdrop.symm
    rw [pointed, if_neg hne]
  · refine List.ne_nil_of_length_pos ?_
    rw [List.length_take]
    omega
  · rw [List.take_append_drop]
    exact hall
  · unfold ofPointed Decimal.toRat
    rw [List.take_append_drop, hdrop, hvalue, zero_sub]

/-- **The text of a decimal** has the digits of a decimal of the same value.
There are three cases, by where the point comes to stand: behind the digits,
among them, or before. -/
theorem Decimal.positional_eq {d : Decimal} (hpos : 0 < d.digits) :
    ∃ whole fraction, d.positional = pointed whole fraction ∧ Digits whole fraction ∧
      (ofPointed whole fraction).toRat = d.toRat := by
  obtain ⟨zeros, hzeros⟩ := exists_dropTrailing_append '0' (Text.ofNat d.digits)
  -- from here on only that these are digits followed by zeros matters
  obtain ⟨digits, hdigits⟩ :
    ∃ digits, digits = Text.dropTrailing (· == '0') (Text.ofNat d.digits) := ⟨_, rfl⟩
  rw [← hdigits] at hzeros
  have hlength : ((Text.ofNat d.digits).length - digits.length : ℕ) = zeros := by
    rw [hzeros, List.length_append, List.length_replicate, Nat.add_sub_cancel_left]
  have hisDigit : ∀ c ∈ digits, c.isDigit = true := fun c hc =>
    Text.isDigit_of_mem_ofNat (hzeros ▸ List.mem_append_left _ hc)
  have hnat : d.digits = Text.digitsValue digits * 10 ^ zeros := by
    rw [← digitsValue_append_zeros, ← hzeros, Text.digitsValue_ofNat]
  have hvalue : d.toRat = Text.digitsValue digits * 10 ^ (d.exponent + zeros) := by
    unfold Decimal.toRat
    rw [hnat, zpow_add₀ (by norm_num), zpow_natCast]
    push_cast
    ring
  unfold Decimal.positional
  dsimp only
  rw [← hdigits, hlength, hvalue]
  by_cases hnonneg : 0 ≤ d.exponent + zeros
  · rw [if_pos hnonneg]
    refine ⟨digits ++ List.replicate (d.exponent + zeros).toNat '0', [],
      (List.append_nil _).symm, ⟨?_, ?_⟩, toRat_ofPointed_whole digits hnonneg⟩
    · rintro hnil
      rw [(List.append_eq_nil_iff.1 hnil).1, Text.digitsValue_nil, zero_mul] at hnat
      exact hpos.ne' hnat
    · intro c hc
      rw [List.append_nil] at hc
      exact (List.mem_append.1 hc).elim (hisDigit c) isDigit_of_mem_zeros
  · rw [if_neg hnonneg]
    have hexponent : d.exponent + zeros = -((-(d.exponent + zeros)).toNat : ℤ) := by omega
    obtain ⟨whole, fraction, htext, hspelled, hrat⟩ :=
      pointed_padLeft digits (by omega : (-(d.exponent + zeros)).toNat ≠ 0) hisDigit
    refine ⟨whole, fraction, htext, hspelled, ?_⟩
    rw [hrat, ← hexponent]

/-! ## The text of a number

A number is written as its shortest decimal, and that decimal lies in the
interval of numbers that round to it. So whoever reads the digits and rounds
gets the number. -/

/-- A finite number is neither NaN nor infinite. -/
theorem isNaN_isInf_of_isFinite {v : Float} (h : v.isFinite = true) :
    v.isNaN = false ∧ v.isInf = false := by
  change v.toModel.unpack.isFinite = true at h
  show v.toModel.unpack.isNaN = false ∧ v.toModel.unpack.isInf = false
  cases hunpack : v.toModel.unpack with
  | infinity sign =>
    rw [hunpack] at h
    cases h
  | notANumber =>
    rw [hunpack] at h
    cases h
  | zero sign => exact ⟨rfl, rfl⟩
  | finite sign mantissa exponent hpos => exact ⟨rfl, rfl⟩

theorem eq_zero_of_significand {v : Float} (hsign : isSigned v = false)
    (h : (magnitude v).significand = 0) : v = 0 := by
  have hlt : v.toBits.toNat < 2 ^ 63 := not_le.1 (of_decide_eq_false hsign)
  refine eq_of_toBits ?_
  rw [show (0 : Float).toBits.toNat = 0 by decide]
  unfold magnitude at h
  dsimp only at h
  split at h
  · dsimp only at h
    omega
  · dsimp only at h
    omega

theorem beq_zero_of_significand {v : Float} (hfinite : v.isFinite = true)
    (hsign : isSigned v = false) (hpos : 0 < (magnitude v).significand) : (v == 0) = false := by
  have hzero : (0 : Float).toModel.unpack = .zero .positive := by rfl
  show v.toModel.unpack.beq (0 : Float).toModel.unpack = false
  rw [unpack_eq hfinite hsign hpos, hzero]
  rfl

/-- **A finite number without a sign is read back from its text.** Reading goes
by the value of the digits, which is that of the shortest decimal, and that
decimal rounds to the number. -/
theorem plainText_eq {v : Float} (hfinite : v.isFinite = true) (hsign : isSigned v = false) :
    ∃ whole fraction, plainText v = pointed whole fraction ∧ Digits whole fraction ∧
      ofDigits whole fraction 0 = v := by
  obtain ⟨hnan, hinf⟩ := isNaN_isInf_of_isFinite hfinite
  by_cases hpos : 0 < (magnitude v).significand
  · have hb := Binary.isDouble_magnitude hfinite hpos
    have hrounds := Binary.rounds_shortest hb
    obtain ⟨whole, fraction, htext, hdigits, hrat⟩ :=
      Decimal.positional_eq (Decimal.digits_pos hb hrounds)
    refine ⟨whole, fraction, ?_, hdigits, ?_⟩
    · unfold plainText
      simp only [hnan, hinf, hsign, beq_zero_of_significand hfinite hsign hpos]
      exact htext
    · rw [← hrat] at hrounds
      exact (Decimal.toFloat_eq hb hrounds).trans (Binary.toFloat_magnitude hsign hb)
  · obtain rfl := eq_zero_of_significand hsign (Nat.eq_zero_of_not_pos hpos)
    refine ⟨['0'], [], ?_, ⟨List.cons_ne_nil _ _, List.all_eq_true.1 rfl⟩, by decide⟩
    show plainText 0 = ['0']
    decide

theorem powInt_zero (base : Float) : powInt base 0 = 1 := by
  unfold powInt
  rw [powLoop]
  rfl

/-- **A number that is not scaled stays what it is.** -/
theorem div_one_mul_one {v : Float} (hfinite : v.isFinite = true) (hsign : isSigned v = false) :
    v / 1 * 1 = v := by
  by_cases hpos : 0 < (magnitude v).significand
  · have hb := Binary.isDouble_magnitude hfinite hpos
    rw [← Binary.toFloat_magnitude hsign hb, hb.toFloat_div_one, hb.toFloat_mul_one]
  · obtain rfl := eq_zero_of_significand hsign (Nat.eq_zero_of_not_pos hpos)
    decide

theorem Digits.pointed_eq_cons {whole fraction : List Char} (h : Digits whole fraction) :
    ∃ first tail, pointed whole fraction = first :: tail ∧ first.isDigit = true := by
  obtain ⟨first, more, rfl⟩ := List.exists_cons_of_ne_nil h.whole_ne_nil
  exact ⟨first, _, rfl, h.isDigit first List.mem_cons_self⟩

end Worksheet.Number
