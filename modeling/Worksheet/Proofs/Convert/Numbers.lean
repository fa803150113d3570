import Worksheet.Proofs.Convert.Compiled
import Worksheet.Proofs.Read.General

/-!
# Numbers written by a converter are read by it

With the standard patterns a converter writes numbers in general format, and
reads them by the sections for it (`Converter.numberFormat_of_standard`,
`Converter.numberReader_of_standard`). So every number that is not too small is
read back when its text has no exponent. A text with an exponent is read back
just when the locale has the sign of the exponent among its signs: the general
format writes a plus or a minus there, and the sections look for the signs of
the locale (`Converter.exists_parse_format_iff`).
-/

namespace Worksheet.Converter

open Pattern Format Read

variable {locale : Locale} {converter : Converter}

/-! ## The standard patterns for numbers

General format is one section for every number, and numbers are read by the
sections of the standard pattern, which are those of `generalReader`. The
locale has no part in either. -/

/-- The pieces of a number format with one general section, which shows every
number. -/
def generalPieces? : Formatter → Option (List General.Piece)
  | .number ⟨[⟨.always, false, none, .general pieces⟩], none⟩ => some pieces
  | _ => none

theorem eq_general_of_generalPieces? {answer : Except PatternError Formatter}
    {pieces : List General.Piece} (h : answer.toOption.bind generalPieces? = some pieces) :
    answer = .ok (.number ⟨[⟨.always, false, none, .general pieces⟩], none⟩) := by
  obtain ⟨formatter, hanswer, hpieces⟩ := Option.bind_eq_some_iff.1 h
  rw [eq_ok_of_toOption hanswer]
  unfold generalPieces? at hpieces
  split at hpieces
  · rw [Option.some.inj hpieces]
  · cases hpieces

/-- **Numbers are written in general format**, whatever the locale is. -/
theorem numberFormat_of_standard (h : Compiled .standard locale converter) :
    converter.numberFormat = .number ⟨[⟨.always, false, none, .general [.number]⟩], none⟩ :=
  Except.ok.inj (h.numberFormat.symm.trans (eq_general_of_generalPieces? (by decide +kernel)))

/-- **Numbers are read by the sections for it**, those of `generalReader`. -/
theorem numberReader_of_standard (h : Compiled .standard locale converter) :
    converter.numberReader = generalReader :=
  Except.ok.inj (h.numberReader.symm.trans (eq_ok_of_toOption (by decide +kernel)))

theorem format_number (h : Compiled .standard locale converter) (value : Float) :
    (converter.format (.number value)).text = General.format locale.numbers value := by
  rw [format, formatterFor?, numberFormat_of_standard h, h.locale]
  show List.flatten [General.format locale.numbers value] = _
  rw [List.flatten_singleton]

/-- A text is parsed as a number when the sections read it. -/
theorem exists_parse_number_iff (h : Compiled .standard locale converter) (text : List Char) :
    (∃ value, converter.parse text .number = .ok (.number value))
      ↔ (generalReader.read? locale.numbers text).isSome = true := by
  rw [parse, read?, numberReader_of_standard h, h.locale]
  cases generalReader.read? locale.numbers text with
  | none => exact iff_of_false (fun ⟨_, hnone⟩ => nomatch hnone) Bool.false_ne_true
  | some value => exact iff_of_true ⟨value, rfl⟩ rfl

/-! ## Reading back

What is printed in general format is read by sections that know what an
exponent looks like; its sign is the only character that the two sides take
from different places. -/

theorem isDigit_of_mem_exponentSign? {value : Float} :
    ∀ sign ∈ General.exponentSign? value, sign.isDigit = false := by
  intro sign hsign
  rcases General.eq_of_mem_exponentSign? hsign with rfl | rfl <;> rfl

/-- Which sign an exponent has, by the size of the number. -/
theorem forall_mem_exponentSign?_iff {value : Float} (hfinite : value.isFinite = true)
    (p : Char → Prop) : (∀ sign ∈ General.exponentSign? value, p sign)
      ↔ (value == 0) = true ∨
        (General.upperLimit ≤ value.abs → p '+') ∧ (value.abs < General.lowerLimit → p '-') := by
  rw [General.exponentSign?]
  cases hzero : value == 0 with
  | true =>
    rw [if_pos rfl]
    exact iff_of_true (fun sign hsign => absurd hsign (Option.not_mem_none sign)) (.inl rfl)
  | false =>
    rw [if_neg Bool.false_ne_true]
    by_cases hupper : General.upperLimit ≤ value.abs
    · -- a large number is not small
      have hlower : ¬value.abs < General.lowerLimit := by
        have hdouble := Number.Binary.isDouble_magnitude hfinite (Number.significand_pos hzero)
        rw [Number.Binary.abs_eq hdouble] at hupper ⊢
        intro hlower
        have hlarge := General.zpow_le_of_upperLimit_le hdouble hupper
        have hsmall := General.toRat_lt_of_lt_lowerLimit hdouble hlower
        exact absurd (hlarge.trans_lt hsmall) (by norm_num)
      rw [if_pos hupper]
      simp [hupper, hlower]
    · rw [if_neg hupper]
      by_cases hlower : value.abs < General.lowerLimit
      · simp [hupper, hlower]
      · simp [hupper, hlower]

/-- **Which numbers are read back.** A converter with the standard patterns,
whose symbols are apart, parses the text it has formatted a number as: always
when the number is zero or has a text without an exponent; when it is very
large, just when a plus is one of the signs of the locale; and when it is very
small, just when a minus is. -/
theorem exists_parse_format_iff (hsigns : locale.numbers.Apart)
    (h : ofPatterns? .standard locale = .ok converter) {value : Float}
    (hfinite : value.isFinite = true) (hsize : (value == 0) = true ∨ 1e-300 ≤ value.abs) :
    (∃ number, converter.parse (converter.format (.number value)).text .number
        = .ok (.number number))
      ↔ (value == 0) = true ∨
        (General.upperLimit ≤ value.abs →
          '+' = locale.numbers.negativeSign ∨ '+' = locale.numbers.positiveSign) ∧
        (value.abs < General.lowerLimit →
          '-' = locale.numbers.negativeSign ∨ '-' = locale.numbers.positiveSign) := by
  have hcompiled := compiled_of_ofPatterns? h
  obtain ⟨text, hwritten, htext⟩ :=
    General.exists_written locale.numbers hfinite hsize
  obtain ⟨negative, hsigned⟩ : ∃ negative,
      General.format locale.numbers value = signed locale.numbers negative text := by
    rcases htext with htext | htext
    · exact ⟨false, htext⟩
    · exact ⟨true, htext⟩
  rw [exists_parse_number_iff hcompiled, format_number hcompiled, hsigned,
    isSome_read?_generalReader hsigns isDigit_of_mem_exponentSign? hwritten negative]
  exact forall_mem_exponentSign?_iff hfinite fun sign =>
    sign = locale.numbers.negativeSign ∨ sign = locale.numbers.positiveSign

/-- A negative number of thirteen digits, with a comma for the point. -/
theorem parse_format_trillions :
    pointGroups.numbers.Apart ∧ (-2.5e12 : Float).isFinite = true
      ∧ (((-2.5e12 : Float) == 0) = true ∨ 1e-300 ≤ (-2.5e12 : Float).abs)
      ∧ ∃ converter, ofPatterns? .standard pointGroups = .ok converter
        ∧ ∃ number, converter.parse (converter.format (.number (-2.5e12))).text .number
          = .ok (.number number) := by
  have hsigns : pointGroups.numbers.Apart := by
    refine ⟨by decide, ?_, by decide⟩
    simp [NumberSigns.symbols, NumberSigns.marks, pointGroups, NumberSigns.standard]
  have hfinite : (-2.5e12 : Float).isFinite = true := by decide +kernel
  have hsize : ((-2.5e12 : Float) == 0) = true ∨ 1e-300 ≤ (-2.5e12 : Float).abs :=
    .inr (by decide +kernel)
  have hconverter := ofPatterns?_standard pointGroups
  refine ⟨hsigns, hfinite, hsize, _, hconverter, ?_⟩
  exact (exists_parse_format_iff hsigns hconverter hfinite hsize).2
    (.inr ⟨fun _ => .inr rfl, fun _ => .inl rfl⟩)

/-- The standard locale with a minus sign that is no hyphen. -/
def minusSign : Locale :=
  { Locale.standard with
    numbers := { NumberSigns.standard with negativeSign := '\u2212' } }

/-- **A very small number is not read back** with another minus: the exponent is
written with a hyphen, and the sections look for the minus of the locale. -/
theorem not_parse_format_tenBillionth :
    minusSign.numbers.Apart ∧ (1e-10 : Float).isFinite = true
      ∧ 1e-300 ≤ (1e-10 : Float).abs
      ∧ ∃ converter, ofPatterns? .standard minusSign = .ok converter
        ∧ (converter.format (.number 1e-10)).text = "1E-10".toList
        ∧ converter.parse "1E-10".toList .number
          = .error (.noMatch "1E-10".toList .number) := by
  have hsigns : minusSign.numbers.Apart := by
    refine ⟨by decide, ?_, by decide⟩
    simp [NumberSigns.symbols, NumberSigns.marks, minusSign, NumberSigns.standard]
  have hconverter := ofPatterns?_standard minusSign
  have hcompiled := compiled_of_ofPatterns? hconverter
  refine ⟨hsigns, by decide +kernel, by decide +kernel, _, hconverter, ?_, ?_⟩
  · rw [format_number hcompiled]
    decide +kernel
  · have hread : generalReader.read? minusSign.numbers "1E-10".toList = none :=
      Option.isNone_iff_eq_none.1 (by decide +kernel)
    rw [parse, read?, numberReader_of_standard hcompiled, hcompiled.locale, hread]
    rfl

end Worksheet.Converter
