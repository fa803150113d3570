import Worksheet.Proofs.Format.Pieces
import Worksheet.Proofs.Format.Slots

/-!
# A formatted number, character by character

A section writes a number as its pieces do, with the slots over which the digits
of the rounded number are laid out. `NumberSection.start` is what is to be
written before the first piece, and `NumberSection.spell?` gives the glyphs:
there are some if there is a slot for each place and a digit is left whenever
one is written. Every finite number has them, since what is to be written fits
the pieces of the section (`ready_start`), whatever the section was compiled
from.

The glyphs make up the text of the number, and they are what one expects of it
(`NumberSection.Spelling`): all digits of the whole part, those of the fraction
but for zeros at the end, separators between groups of three digits, and one
sign in front of the number. The main statement is
`NumberSection.exists_spelling`. It is put together from three layers: what the
slots are (`Worksheet.Proofs.Format.Slots`), what each piece writes
(`Worksheet.Proofs.Format.Pieces`), and which digits the rounded number has
(`NumberSection.wholeText_eq`, `NumberSection.fraction_start`).
-/

namespace Worksheet.Format

open Pattern Glyph

namespace NumberSection

/-! ## What is to be written

The numbers and texts that the formatter goes through on its way, each under a
name of its own, and the digits of the rounded number, of which the theorem
below says that they are what is written. -/

variable (signs : NumberSigns) (layout : NumberSection) (value : Float)

/-- The number a section shows, without its sign, and the exponent it shows.
Without an exponent it is the scaled number itself. -/
def shownNumber : Float × ℤ :=
  if layout.isScientific then layout.splitExponent (layout.scaled value)
  else (layout.scaled value, 0)

/-- The text of the number that is shown, with as many digits behind the point
as there are places. -/
def shownText : List Char :=
  Number.fixedText layout.fraction.length (layout.shownNumber value).1

def wholeText : List Char :=
  ((layout.shownText value).takeWhile (· != '.')).dropWhile (· == '0')

/-- **What is to be written of a number**, before the first piece: its sign, the
number of its digits before the point, and the slots of the three runs. -/
def start : Pending where
  sign := value < 0
  digits := ((Placeholder.fillRight (layout.wholeText value) layout.integer).flatten.filter
    Char.isDigit).length
  integer := Placeholder.fillRight (layout.wholeText value) layout.integer
  fraction := fractionSlots layout.fraction (((layout.shownText value).dropWhile (· != '.')).drop 1)
  exponent :=
    Placeholder.fillRight (Text.ofNat (layout.shownNumber value).2.natAbs) layout.exponent

/-- The digits before a point that has no places before it. With places they are
in the slots. -/
def wholeBeforePoint : Option (List Char) :=
  if layout.integer.isEmpty then some (layout.wholeText value) else none

/-- **The glyphs of a number**, if there is a slot for each place and a digit is
left whenever one is written. `exists_spelling` says that this is always so. -/
def spell? : Option (List Glyph) :=
  spellItems? signs layout.grouping (layout.wholeBeforePoint value) (layout.shownNumber value).2
    layout.items (layout.start value)

/-- The number that is shown, in units of the last place behind the point. It is
the exact value rounded once, from which all digits are read off. -/
def units : ℕ :=
  Number.roundedUnits layout.fraction.length (Number.magnitude (layout.shownNumber value).1)

def wholeDigits : List Char :=
  Text.significant (layout.units value / 10 ^ layout.fraction.length)

def fractionDigits : List Char :=
  Text.ofNatPadded layout.fraction.length (layout.units value % 10 ^ layout.fraction.length)

/-! ## What is written -/

/-- **What a formatted number consists of.** The digits are those of
`wholeDigits` and `fractionDigits`, which are given by the rounded number and
not by what is written. -/
structure Spelling (glyphs : List Glyph) : Prop where
  /-- Its glyphs make up its text. -/
  text_eq : textOf glyphs = layout.format signs value
  /-- The places before the point show all digits of the whole part, behind what
  the places on the left show that have no digit. -/
  integer_eq : layout.integer ≠ [] → charsOf .integer glyphs
    = (layout.integer.take (layout.integer.length - (layout.wholeDigits value).length)).flatMap
        Placeholder.padding ++ layout.wholeDigits value
  /-- Without grouping it is the same without the separators. -/
  ungrouped_eq : textOf (ungrouped glyphs) = { layout with grouping := false }.format signs value
  /-- Behind each separator there are three digits before the point, or six, and
  so on. -/
  isGrouped : Grouped signs.groupSeparator glyphs
  /-- The places behind the point show the digits of the fraction, but for zeros
  at the end, for which a space is shown or nothing. -/
  fraction_eq : ∃ kept blanked,
    (layout.fractionDigits value).zip layout.fraction = kept ++ blanked
      ∧ (∀ place ∈ blanked, place.1 = '0' ∧ place.2 ≠ .zero)
      ∧ (∀ place ∈ kept.getLast?, place.1 ≠ '0' ∨ place.2 = .zero)
      ∧ charsOf .fraction glyphs = kept.map Prod.fst ++ blanked.flatMap fun place => place.2.padding
  /-- The sign is written once, and only for numbers below zero. -/
  sign_eq : charsOf .sign glyphs
    = if value < 0 ∧ layout.items.any beginsNumber then [signs.negativeSign] else []
  /-- Nothing of the number stands in front of it. -/
  sign_first : SignFirst glyphs

variable {layout value}

/-- The text of a finite number is written by `write`, piece after piece, with
`start` to be written. -/
theorem format_eq_write (hfinite : value.isFinite = true) :
    layout.format signs value
      = write signs layout.grouping (layout.wholeBeforePoint value) (layout.shownNumber value).2
          layout.items (layout.start value) := by
  obtain ⟨hnan, hinf⟩ := Number.isNaN_isInf_of_isFinite hfinite
  rw [format, hnan, hinf]
  rfl

theorem unsigned_splitExponent (layout : NumberSection) {size : Float}
    (h : Number.Unsigned size) : Number.Unsigned (layout.splitExponent size).1 := by
  unfold splitExponent
  split
  · exact .inl (by unfold Number.IsSize; decide)
  · dsimp only
    split_ifs <;> exact h.div (Number.unsigned_powInt Number.unsigned_ten _)

/-- The number that is shown has no sign, whether it is a mantissa or not. Its
text therefore begins with a digit. -/
theorem unsigned_shownNumber (layout : NumberSection) (value : Float) :
    Number.Unsigned (layout.shownNumber value).1 := by
  have hscaled := DigitPattern.unsigned_scaled layout value
  unfold shownNumber
  split
  · exact unsigned_splitExponent layout hscaled
  · exact hscaled

/-- **The text of the number that is shown has the digits of the rounded
number**: what is cut out of `shownText` before the point is what `units` says. -/
theorem wholeText_eq (hshown : (layout.shownNumber value).1.isFinite = true) :
    layout.wholeText value = layout.wholeDigits value := by
  have hsigned := (unsigned_shownNumber layout value).isSigned hshown
  rw [wholeText, shownText, (Number.fixedText_split _ hshown hsigned).1]
  exact (Number.fixedDigits_eq _ _).1

/-- The same behind the point, when there are places there; without places both
sides are empty. -/
theorem fraction_start (hshown : (layout.shownNumber value).1.isFinite = true) :
    (layout.start value).fraction
      = fractionSlots layout.fraction (layout.fractionDigits value) := by
  have hsigned := (unsigned_shownNumber layout value).isSigned hshown
  rw [start, shownText, (Number.fixedText_split _ hshown hsigned).2]
  by_cases hnone : layout.fraction = []
  · simp only [hnone, fractionSlots, List.length_nil, List.take_zero, List.zip_nil_left,
      List.reverse_nil]
  · rw [(Number.fixedDigits_eq _ _).2.2 (mt List.eq_nil_of_length_eq_zero hnone)]
    rfl

theorem length_le_fractionDigits (layout : NumberSection) (value : Float) :
    layout.fraction.length ≤ (layout.fractionDigits value).length :=
  Text.le_length_padLeft _ _ _

/-- What is to be written of a number fits the pieces: slots are made from the
very places that the pieces have, so there are as many of them. -/
theorem ready_start (layout : NumberSection) (value : Float) :
    Ready layout.items (layout.start value) := by
  refine ⟨?_, (List.countP_eq_length_filter ..).symm⟩
  rintro (_ | _ | _)
  · exact length_fillRight
  · exact length_fractionSlots _ _
  · exact length_fillRight

/-- **Every finite number is spelled** by a section, whatever it was compiled
from, when its size there is finite, and its mantissa, if it has one. The glyphs
of the number with and without grouping are compared by `Spelled.ungrouped_eq`,
and the slots are read off by `flatten_fillRight` and `exists_fractionSlots`. -/
theorem exists_spelling (signs : NumberSigns) (layout : NumberSection) {value : Float}
    (hfinite : value.isFinite = true) (hscaled : (layout.scaled value).isFinite = true)
    (hmantissa : layout.isScientific = true →
      (layout.splitExponent (layout.scaled value)).1.isFinite = true) :
    ∃ glyphs, layout.spell? signs value = some glyphs ∧ layout.Spelling signs value glyphs := by
  have hshown : (layout.shownNumber value).1.isFinite = true := by
    unfold shownNumber
    split
    · exact hmantissa ‹_›
    · exact hscaled
  -- spelled twice, as the section groups and without grouping: the second is
  -- the first less its separators
  have hspells : ∀ grouping, ∃ glyphs,
      spellItems? signs grouping (layout.wholeBeforePoint value) (layout.shownNumber value).2
        layout.items (layout.start value) = some glyphs
      ∧ Spelled signs grouping (layout.wholeBeforePoint value) (layout.shownNumber value).2
        layout.items (layout.start value) glyphs :=
    fun _ => exists_spellItems? (ready_start layout value)
  obtain ⟨glyphs, hspell, hspelled⟩ := hspells layout.grouping
  obtain ⟨plain, hplain, hplainSpelled⟩ := hspells false
  obtain rfl : ungrouped glyphs = plain :=
    Option.some.inj (hspelled.ungrouped_eq.symm.trans hplain)
  have hinteger : charsOf .integer glyphs = (layout.start value).integer.flatten :=
    hspelled.slots_eq .integer
  have hfraction : charsOf .fraction glyphs = (layout.start value).fraction.flatten :=
    hspelled.slots_eq .fraction
  refine ⟨glyphs, hspell, ?_, fun hsome => ?_, ?_, hspelled.isGrouped, ?_, ?_, hspelled.sign_first⟩
  · rw [format_eq_write signs hfinite, hspelled.text_eq]
  · rw [hinteger, start, wholeText_eq hshown, flatten_fillRight _ hsome]
  · rw [format_eq_write signs hfinite]
    exact hplainSpelled.text_eq.symm
  · obtain ⟨kept, blanked, hzip, hblanked, hkept, hslots⟩ :=
      exists_fractionSlots (length_le_fractionDigits layout value)
    refine ⟨kept, blanked, hzip, hblanked, hkept, ?_⟩
    rw [hfraction, fraction_start hshown, hslots, List.flatten_append, ← List.flatMap_def,
      ← List.flatMap_def, ← List.map_eq_flatMap]
  · rw [hspelled.sign_eq]
    simp [start]

/-- An amount of money with a hyphen before its last digit, and at least one
place for cents. -/
def hyphenated : NumberSection where
  items := [.currency, .digit .integer .optional, .literal ['-'], .digit .integer .zero,
    .decimalPoint, .digit .fraction .zero, .digit .fraction .optional, .digit .fraction .space]
  grouping := true
  scale := 0

/-- A number with more digits than there are places for, on both sides of a
literal. -/
theorem exists_spelling_hyphenated :
    (-1234567.5 : Float).isFinite = true
      ∧ (hyphenated.scaled (-1234567.5)).isFinite = true ∧ hyphenated.isScientific = false
      ∧ ∃ glyphs, hyphenated.spell? .standard (-1234567.5) = some glyphs
        ∧ hyphenated.Spelling .standard (-1234567.5) glyphs := by
  have hfinite : (-1234567.5 : Float).isFinite = true := by decide +kernel
  have hscaled : (hyphenated.scaled (-1234567.5)).isFinite = true := by decide +kernel
  have hplain : hyphenated.isScientific = false := rfl
  exact ⟨hfinite, hscaled, hplain,
    exists_spelling .standard hyphenated hfinite hscaled fun h => by cases hplain.symm.trans h⟩

/-- What is printed there. -/
example : hyphenated.format .standard (-1234567.5) = "$-1,234,56-7.5 ".toList := by
  decide +kernel

end NumberSection

end Worksheet.Format
