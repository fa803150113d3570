import Worksheet.Proofs.Format.General
import Worksheet.Proofs.Format.Spelled
import Worksheet.Proofs.Number.Scaling

/-!
# What is printed of finite numbers

A section prints digits, what it shows where there are none, the characters of
the locale and its own literals (`NumberSection.IsExpected`). For that the
number it shows has to be finite, and this is not the number it is given:
percent signs multiply it, and with an exponent it is divided by a power of ten.
Only the given number is looked at, so that a product that is too large is
printed as the word for an infinity.

It is said here exactly when. A section prints what is expected of it just when
the number it shows is finite, or when there is nothing the digits belong to
(`NumberSection.ShowsFinite`), and otherwise a word stands where the digits
should be (`NumberSection.Printed`). It is the same for the general format
(`General.Printed`). What is shown of a finite number is finite unless percent
signs make it too large (`NumberSection.Reaches`), or the power of ten that is
looked for below the exact limit is too small to be a double
(`General.Reaches`).
-/

namespace Worksheet.Format

open Pattern Glyph

/-- The texts of what is no finite number, without a sign. Each has a letter in
it, so that it cannot be mistaken for digits. -/
def words : List (List Char) :=
  ["inf".toList, "NaN".toList]

namespace NumberSection

/-! ## What is expected

What may be printed is said glyph by glyph, by the thing that each glyph
belongs to. So the letters of a literal are expected and those of a word for an
infinity are not, although both are letters. -/

/-- **What a section is to print**: digits and spaces at its places, the
characters of the locale, and the texts of its literals. Each glyph is judged by
what it belongs to, so that a literal with a letter in it is no objection. -/
def IsExpected (signs : NumberSigns) (items : List NumberItem) (glyph : Glyph) : Prop :=
  match glyph.origin with
  | .sign => glyph.char = signs.negativeSign
  | .integer | .fraction | .exponent => glyph.char.isDigit = true ∨ glyph.char = ' '
  | .separator => glyph.char = signs.groupSeparator
  | .whole => glyph.char.isDigit = true
  | .point => glyph.char = signs.decimalPoint
  | .exponentMark => glyph.char ∈ signs.exponentSymbol
    ∨ glyph.char = signs.negativeSign ∨ glyph.char = signs.positiveSign
  | .percent => glyph.char = signs.percentSymbol
  | .currency => glyph.char ∈ signs.currencySymbol
  | .literal => ∃ text, .literal text ∈ items ∧ glyph.char ∈ text

/-- **Whether only finite numbers are shown**: the digits are those of a finite
number, or there is neither a place before the point nor a point. In the latter
case nothing is written of the whole part, be it digits or a word. -/
def ShowsFinite (layout : NumberSection) (value : Float) : Prop :=
  (layout.shownNumber value).1.isFinite = true
    ∨ layout.integer = [] ∧ NumberItem.decimalPoint ∉ layout.items

/-- **What a section prints of a finite number**: glyphs that make up its text,
which are expected just when only finite numbers are shown, and a word among
them otherwise. -/
structure Printed (signs : NumberSigns) (layout : NumberSection) (value : Float)
    (glyphs : List Glyph) : Prop where
  /-- The glyphs make up the text. -/
  text_eq : textOf glyphs = layout.format signs value
  /-- They are what is expected just when only finite numbers are shown. -/
  isExpected_iff :
    (∀ glyph ∈ glyphs, IsExpected signs layout.items glyph) ↔ layout.ShowsFinite value
  /-- And otherwise a word is written before the point. -/
  exists_word : ¬layout.ShowsFinite value →
    ∃ word ∈ words, word <:+: charsOf .integer glyphs ++ charsOf .whole glyphs

section

variable {signs : NumberSigns} {layout : NumberSection} {value : Float} {glyph : Glyph}
  {glyphs : List Glyph} {item : NumberItem} {whole : Option (List Char)} {exponent : ℤ}

theorem exists_letter {word : List Char} (h : word ∈ words) :
    ∃ c ∈ word, c.isDigit = false ∧ c ≠ ' ' := by
  rcases List.mem_pair.1 h with rfl | rfl
  · exact ⟨'i', List.mem_cons_self, by decide, by decide⟩
  · exact ⟨'N', List.mem_cons_self, by decide, by decide⟩

/-- What belongs to a piece that is no place is expected, up to the digits
before a point. Those are the whole part of the number where there is no place
for it, and may be a word. -/
theorem isExpected_of_mem_fixedGlyphs {items : List NumberItem} (hitem : item ∈ items)
    (hglyph : glyph ∈ fixedGlyphs signs whole exponent item)
    (hwhole : item = .decimalPoint → ∀ c ∈ whole.getD [], c.isDigit = true) :
    IsExpected signs items glyph := by
  cases item with
  | digit => cases hglyph
  | decimalPoint =>
    -- before the point stands the whole part, where the pattern has no place
    -- for it
    rcases List.mem_append.1 hglyph with hdigit | hpoint
    · obtain ⟨c, hc, rfl⟩ := List.mem_map.1 hdigit
      exact hwhole rfl c hc
    · obtain rfl := List.mem_singleton.1 hpoint
      rfl
  | exponentMark explicit =>
    obtain ⟨c, hc, rfl⟩ := List.mem_map.1 hglyph
    rcases List.mem_append.1 hc with hsymbol | hsign
    · exact .inl hsymbol
    · right
      split_ifs at hsign
      · exact .inl (List.mem_singleton.1 hsign)
      · exact .inr (List.mem_singleton.1 hsign)
      · cases hsign
  | percent =>
    obtain rfl := List.mem_singleton.1 hglyph
    rfl
  | currency =>
    obtain ⟨c, hc, rfl⟩ := List.mem_map.1 hglyph
    exact hc
  | literal text =>
    obtain ⟨c, hc, rfl⟩ := List.mem_map.1 hglyph
    exact ⟨text, hitem, hc⟩

/-! ## The text of the number that is shown

A number is written in plain notation before it is cut at its point. A finite
one gives digits on both sides, and one that is not finite a word in front and
nothing behind. -/

theorem isDigit_of_mem_wholeText (hshown : (layout.shownNumber value).1.isFinite = true) {c : Char}
    (h : c ∈ layout.wholeText value) : c.isDigit = true :=
  (Number.isDigit_of_mem_fixedText hshown
    ((unsigned_shownNumber layout value).isSigned hshown)).1 c ((List.dropWhile_suffix _).subset h)

/-- Before the point of a number that is not finite there is a word. -/
theorem wholeText_mem_words (hshown : (layout.shownNumber value).1.isFinite = false) :
    layout.wholeText value ∈ words := by
  unfold wholeText shownText
  rcases Number.fixedText_of_not_isFinite layout.fraction.length
    (unsigned_shownNumber layout value) hshown with h | h <;> rw [h] <;> decide

/-- Behind the point there are digits in any case: a word has no point in it, so
nothing is left behind one. -/
theorem isDigit_of_mem_fraction {c : Char}
    (h : c ∈ ((layout.shownText value).dropWhile (· != '.')).drop 1) : c.isDigit = true := by
  have hunsigned := unsigned_shownNumber layout value
  cases hshown : (layout.shownNumber value).1.isFinite with
  | true => exact (Number.isDigit_of_mem_fixedText hshown (hunsigned.isSigned hshown)).2 c h
  | false =>
    unfold shownText at h
    rcases Number.fixedText_of_not_isFinite layout.fraction.length hunsigned hshown
      with hword | hword <;> rw [hword] at h <;> cases h

/-! ## What is printed

The two halves of the criterion are apart: with a finite number every glyph is
expected, and without one a letter of the word is not. `exists_printed` puts
them together. -/

/-- All that is known of what a section writes of a number, finite or not: it is
spelled (`exists_spellItems?`), and apart from the places it is what its pieces
are. -/
theorem exists_spelled (signs : NumberSigns) (layout : NumberSection) (value : Float) :
    ∃ glyphs, layout.spell? signs value = some glyphs
      ∧ Spelled signs layout.grouping (layout.wholeBeforePoint value) (layout.shownNumber value).2
          layout.items (layout.start value) glyphs
      ∧ glyphs.filter (fun glyph => glyph.origin.isFixed)
        = layout.items.flatMap (fixedGlyphs signs (layout.wholeBeforePoint value)
            (layout.shownNumber value).2) := by
  obtain ⟨glyphs, hspell, hspelled⟩ := exists_spellItems? (ready_start layout value)
  exact ⟨glyphs, hspell, hspelled, filter_isFixed_of_spellItems? (ready_start layout value) hspell⟩

variable
  (hspelled : Spelled signs layout.grouping (layout.wholeBeforePoint value)
    (layout.shownNumber value).2 layout.items (layout.start value) glyphs)
  (hfixed : glyphs.filter (fun glyph => glyph.origin.isFixed)
    = layout.items.flatMap (fixedGlyphs signs (layout.wholeBeforePoint value)
        (layout.shownNumber value).2))
include hspelled

/-- At the places there are digits and spaces, if only finite numbers are shown.
The slots before the point hold the digits of the whole part, those behind it
digits in any case, and those of the exponent the digits of a number. -/
theorem isDigit_or_of_mem_place (hshows : layout.ShowsFinite value) (zone : Zone) {c : Char}
    (h : ⟨zone.origin, c⟩ ∈ glyphs) : c.isDigit = true ∨ c = ' ' := by
  have hslot : c ∈ ((layout.start value).slots zone).flatten := by
    rw [← hspelled.slots_eq]
    exact mem_charsOf.2 h
  have hfilled : ∀ {digits : List Char} {placeholders : List Placeholder},
      c ∈ (Placeholder.fillRight digits placeholders).flatten →
      (c ∈ digits → placeholders ≠ [] → c.isDigit = true) → c.isDigit = true ∨ c = ' ' := by
    intro digits placeholders hmem hdigits
    rcases eq_or_ne placeholders [] with rfl | hsome
    · cases hmem
    · rcases mem_of_mem_fillRight hmem with hdigit | rfl | hspace
      · exact .inl (hdigits hdigit hsome)
      · exact .inl rfl
      · exact .inr hspace
  cases zone with
  | integer =>
    refine hfilled hslot fun hdigit hsome => isDigit_of_mem_wholeText ?_ hdigit
    exact hshows.resolve_right fun hnone => hsome hnone.1
  | fraction => exact (mem_of_mem_fractionSlots hslot).imp_left isDigit_of_mem_fraction
  | exponent => exact hfilled hslot fun hdigit _ => Text.isDigit_of_mem_ofNat hdigit

include hfixed

/-- **If only finite numbers are shown**, what is printed is expected: by
`isDigit_or_of_mem_place` at the places and by `isExpected_of_mem_fixedGlyphs`
elsewhere. -/
theorem ShowsFinite.isExpected (hshows : layout.ShowsFinite value) (hglyph : glyph ∈ glyphs) :
    IsExpected signs layout.items glyph := by
  -- what no digit's place gave was written by an item, and the items are known
  have hpiece : glyph.origin.isFixed = true → IsExpected signs layout.items glyph := by
    intro horigin
    have hmem : glyph ∈ glyphs.filter fun glyph => glyph.origin.isFixed :=
      List.mem_filter.2 ⟨hglyph, horigin⟩
    rw [hfixed] at hmem
    obtain ⟨item, hitem, hmem⟩ := List.mem_flatMap.1 hmem
    refine isExpected_of_mem_fixedGlyphs hitem hmem fun hpoint c hc => ?_
    unfold wholeBeforePoint at hc
    split at hc
    · refine isDigit_of_mem_wholeText (hshows.resolve_right fun hnone => hnone.2 ?_) hc
      exact hpoint ▸ hitem
    · cases hc
  obtain ⟨origin, c⟩ := glyph
  cases origin with
  | sign =>
    have hsign := mem_charsOf.2 hglyph
    rw [hspelled.sign_eq] at hsign
    split at hsign
    · exact List.mem_singleton.1 hsign
    · cases hsign
  | separator =>
    obtain ⟨front, back, rfl⟩ := List.append_of_mem hglyph
    exact (hspelled.isGrouped c back (List.suffix_append _ _)).1
  | integer => exact isDigit_or_of_mem_place hspelled hshows .integer hglyph
  | fraction => exact isDigit_or_of_mem_place hspelled hshows .fraction hglyph
  | exponent => exact isDigit_or_of_mem_place hspelled hshows .exponent hglyph
  | _ => exact hpiece rfl

/-- **Otherwise there is a word** before the point: at the places if there are
any, and else in front of the point, where the digits are written that have no
place. -/
theorem exists_word_of_not_showsFinite (hshows : ¬layout.ShowsFinite value) :
    ∃ word ∈ words, word <:+: charsOf .integer glyphs ++ charsOf .whole glyphs := by
  obtain ⟨hshown, hplace⟩ := not_or.1 hshows
  have hword := wholeText_mem_words (Bool.eq_false_iff.2 hshown)
  refine ⟨_, hword, ?_⟩
  have hinteger : charsOf .integer glyphs = (layout.start value).integer.flatten :=
    hspelled.slots_eq .integer
  by_cases hnone : layout.integer = []
  · have hpoint : NumberItem.decimalPoint ∈ layout.items :=
      not_not.1 fun hpoint => hplace ⟨hnone, hpoint⟩
    have hwhole : layout.wholeBeforePoint value = some (layout.wholeText value) :=
      if_pos (List.isEmpty_iff.2 hnone)
    obtain ⟨front, back, hitems⟩ := List.append_of_mem hpoint
    have hpieces : charsOf .whole glyphs
        = charsOf .whole (layout.items.flatMap (fixedGlyphs signs (layout.wholeBeforePoint value)
            (layout.shownNumber value).2)) := by
      rw [← hfixed]
      exact (charsOf_filter (fun _ horigin => by rw [horigin]; rfl) glyphs).symm
    rw [hpieces, hitems, hwhole, List.flatMap_append, List.flatMap_cons, charsOf_append,
      charsOf_append, fixedGlyphs, charsOf_append, charsOf_glyphs, if_pos rfl, List.append_assoc]
    exact ⟨charsOf .integer glyphs ++ _, _, by simp only [List.append_assoc]; rfl⟩
  · rw [hinteger, start, flatten_fillRight _ hnone]
    exact ⟨_, _, rfl⟩

end

/-- **What a section prints** of a number that is finite is expected just when
the number it shows is. A word has a letter in it (`exists_letter`), so it is
not among what is expected. -/
theorem exists_printed (signs : NumberSigns) (layout : NumberSection)
    (hfinite : value.isFinite = true) :
    ∃ glyphs, layout.spell? signs value = some glyphs ∧ layout.Printed signs value glyphs := by
  obtain ⟨glyphs, hspell, hspelled, hfixed⟩ := exists_spelled signs layout value
  have hword := exists_word_of_not_showsFinite hspelled hfixed
  refine ⟨glyphs, hspell, ?_, ?_, hword⟩
  · rw [format_eq_write signs hfinite, hspelled.text_eq]
  · refine ⟨fun hexpected => not_not.1 fun hshows => ?_, fun hshows glyph =>
      hshows.isExpected hspelled hfixed⟩
    -- each of the words has a letter that is neither a digit nor a space
    obtain ⟨word, hmem, hpart⟩ := hword hshows
    obtain ⟨c, hc, hdigit, hspace⟩ := exists_letter hmem
    rcases List.mem_append.1 (hpart.subset hc) with hinteger | hwhole
    · rcases hexpected _ (mem_charsOf.1 hinteger) with h | h
      · exact Bool.false_ne_true (hdigit.symm.trans h)
      · exact hspace h
    · exact Bool.false_ne_true (hdigit.symm.trans (hexpected _ (mem_charsOf.1 hwhole)))

/-! ## Percent signs and scaling

Scaling multiplies first and divides afterwards. A product that has become
infinite is not made finite again by a division, so only the multiplication has
to be looked at. -/

open Number Binary

/-- **Scaling leads neither out of the range nor back into it.** Only percent
signs matter: what has become infinite by them stays so when it is divided by a
thousand, and what has not stays finite. -/
theorem isFinite_scaled_iff (layout : NumberSection) (value : Float) :
    (layout.scaled value).isFinite = true
      ↔ (value.abs * powInt 100 layout.percent).isFinite = true := by
  have hproduct : Unsigned (value.abs * powInt 100 layout.percent) :=
    (unsigned_abs value).mul (unsigned_powInt unsigned_hundred _)
  refine ⟨isFinite_of_isFinite_div, fun h => ?_⟩
  exact (AtLeastOne.thousand.powInt _).isFinite_div h (hproduct.isSigned h)

/-- **With few percent signs** the exact product tells. Up to seven of them the
power of a hundred is a double itself, and the product is rounded once. -/
theorem isFinite_scaled_iff_lt_overflow {layout : NumberSection} (hfinite : value.isFinite = true)
    (hpercent : layout.percent ≤ 7) :
    (layout.scaled value).isFinite = true
      ↔ (magnitude value).toRat * 100 ^ layout.percent < overflow := by
  obtain ⟨hdouble, hpower, hhundreds⟩ := powInt_hundred hpercent
  obtain ⟨hsize, hmagnitude⟩ := isFinite_magnitude_abs hfinite
  rw [isFinite_scaled_iff, hpower,
    isFinite_mul_iff hsize ((unsigned_abs value).isSigned hsize) hdouble, hmagnitude, hhundreds]

theorem isFinite_scaled_of_percent_eq_zero {layout : NumberSection}
    (hfinite : value.isFinite = true) (hpercent : layout.percent = 0) :
    (layout.scaled value).isFinite = true := by
  rw [isFinite_scaled_iff_lt_overflow hfinite (hpercent ▸ Nat.zero_le 7), hpercent, pow_zero,
    mul_one]
  exact toRat_magnitude_lt_overflow hfinite

/-! ## Mantissas

A mantissa is a quotient by a power of ten, and the power is found by a
logarithm that need not be exact. The bounds on doubles are used for the power
and the tolerance of the logarithm for its place. -/

/-- A mantissa is the number over a power of ten. It has no more digits before
the point than there are places, by the logarithm; nothing is said here of how
good the logarithm is. -/
theorem exists_splitExponent (layout : NumberSection) {size : Float} (hzero : (size == 0) = false) :
    ∃ exponent : ℤ, (layout.splitExponent size).1 = size / powInt 10 exponent
      ∧ exponentOf size.log10 < exponent + max (layout.integer.length : ℤ) 1 := by
  have hwidth : 0 < max (layout.integer.length : ℤ) 1 := by omega
  have hblock := Int.lt_ediv_add_one_mul_self (exponentOf size.log10) hwidth
  rw [add_mul, one_mul] at hblock
  rw [splitExponent, hzero, if_neg Bool.false_ne_true]
  dsimp only
  generalize exponentOf size.log10 = leading at hblock ⊢
  generalize max (layout.integer.length : ℤ) 1 = width at hwidth hblock ⊢
  split_ifs <;> exact ⟨_, rfl, by omega⟩

/-- **A mantissa is finite** when the number is not too small, there are not too
many places and the logarithm tells the leading digit, or the one beside it. The
logarithm is not modelled, so what is needed of it is a hypothesis on its
value. -/
theorem isFinite_splitExponent (layout : NumberSection) {size : Float}
    (hfinite : size.isFinite = true) (hsigned : isSigned size = false)
    (hlow : 10 ^ (-290 : ℤ) ≤ (magnitude size).toRat) (hwidth : layout.integer.length ≤ 7)
    (hlog : |exponentOf size.log10
      - leadingExponent (magnitude size).num (magnitude size).den| ≤ 1) :
    (layout.splitExponent size).1.isFinite = true := by
  have hten : (1 : ℚ) < 10 := by norm_num
  have hpos : 0 < (magnitude size).significand := by
    refine Nat.pos_of_ne_zero fun hnone => ?_
    rw [toRat, hnone, Nat.cast_zero, zero_mul] at hlow
    exact absurd hlow (not_le.2 (by positivity))
  have hdouble := isDouble_magnitude hfinite hpos
  obtain ⟨exponent, hmantissa, hexponent⟩ :=
    layout.exists_splitExponent (beq_zero_of_significand hfinite hsigned hpos)
  obtain ⟨hleast, hmost⟩ := abs_le.1 hlog
  have hmin := (zpow_lt_zpow_iff_right₀ hten).1 (hlow.trans_lt hdouble.lt_zpow_leadingExponent)
  rw [hmantissa]
  refine isFinite_div_powInt hfinite hsigned (by omega) fun hneg => ?_
  exact hdouble.lt_zpow_leadingExponent.trans_le (zpow_le_zpow_right₀ hten.le (by omega))

/-- **When the number a section shows is finite**, for one that is finite
itself. The fields go from the exact criterion to the simpler ones that follow
from it when the pattern has few percent signs. -/
structure Reaches (layout : NumberSection) (value : Float) : Prop where
  /-- Without an exponent, it is when its hundredths are. -/
  hundredths : layout.isScientific = false →
    ((layout.shownNumber value).1.isFinite = true
      ↔ (value.abs * powInt 100 layout.percent).isFinite = true)
  /-- With few percent signs, these are when the exact product is not too
  large. -/
  few_percents : layout.isScientific = false → layout.percent ≤ 7 →
    ((layout.shownNumber value).1.isFinite = true
      ↔ (magnitude value).toRat * 100 ^ layout.percent < overflow)
  /-- Without any, every number is. -/
  no_percents : layout.isScientific = false → layout.percent = 0 →
    (layout.shownNumber value).1.isFinite = true
  /-- With an exponent, what is finite has a finite mantissa when it is zero, or
  when it is not too small, there are not too many places, and the logarithm
  tells the leading digit or the one beside it. -/
  mantissa : layout.isScientific = true → (layout.scaled value).isFinite = true →
    (layout.scaled value == 0) = true
      ∨ 10 ^ (-290 : ℤ) ≤ (magnitude (layout.scaled value)).toRat ∧ layout.integer.length ≤ 7
        ∧ |exponentOf (layout.scaled value).log10
            - leadingExponent (magnitude (layout.scaled value)).num
                (magnitude (layout.scaled value)).den| ≤ 1 →
    (layout.shownNumber value).1.isFinite = true

/-- **The number a section shows is finite** when percent signs do not make it
too large, and when it is not too small for an exponent. -/
theorem reaches (layout : NumberSection) (hfinite : value.isFinite = true) :
    layout.Reaches value := by
  have hplain : layout.isScientific = false →
      (layout.shownNumber value).1 = layout.scaled value := fun hplain => by
    rw [shownNumber, hplain, if_neg Bool.false_ne_true]
  refine ⟨fun h => ?_, fun h hfew => ?_, fun h hnone => ?_, fun h hscaled hmantissa => ?_⟩
  · rw [hplain h, isFinite_scaled_iff]
  · rw [hplain h, isFinite_scaled_iff_lt_overflow hfinite hfew]
  · rw [hplain h]
    exact isFinite_scaled_of_percent_eq_zero hfinite hnone
  · rw [shownNumber, h, if_pos rfl]
    rcases hmantissa with hzero | ⟨hlow, hwidth, hlog⟩
    · rw [splitExponent, hzero, if_pos rfl]
      decide
    · have hsigned := (DigitPattern.unsigned_scaled layout value).isSigned hscaled
      exact isFinite_splitExponent layout hscaled hsigned hlow hwidth hlog

end NumberSection

/-! ## The general format

General format has no pieces between which digits are laid out, so its text is
judged character by character. Only the mantissa of a number with an exponent
is computed and may fail to be finite. -/

namespace General

open Number Binary

/-- **What the general format is to print**: digits and the characters of the
locale, and a plus or a minus of its own in front of an exponent. -/
def IsExpected (signs : NumberSigns) (c : Char) : Prop :=
  c.isDigit = true ∨ c = signs.decimalPoint ∨ c = signs.negativeSign ∨ c ∈ signs.exponentSymbol
    ∨ c = '+' ∨ c = '-'

/-- The number whose digits are shown: the mantissa, if there is an exponent,
and else the size. -/
def shownNumber (value : Float) : Float :=
  if (exponentSign? value).isSome then value.abs / powInt 10 (exponentOf value.abs) else value.abs

/-- **What a general section prints of a finite number**: what is expected, if
the number that is shown is finite, and a word otherwise. -/
structure Printed (signs : NumberSigns) (pieces : List Piece) (value : Float) : Prop where
  /-- Besides its literals it prints what is expected, if the number that is
  shown is finite. -/
  isExpected : (shownNumber value).isFinite = true →
    ∀ c ∈ formatPieces signs value pieces,
      IsExpected signs c ∨ ∃ text, .literal text ∈ pieces ∧ c ∈ text
  /-- And otherwise a word. -/
  exists_word : (shownNumber value).isFinite = false → .number ∈ pieces →
    ∃ word ∈ words, word <:+: formatPieces signs value pieces

variable {signs : NumberSigns} {value : Float} {c : Char}

theorem isExpected_of_mem_pointedBy {whole fraction : List Char} (h : Digits whole fraction)
    (hc : c ∈ pointedBy signs whole fraction) : IsExpected signs c := by
  rcases List.mem_append.1 hc with hc | hc
  · exact .inl (h.isDigit c (List.mem_append_left _ hc))
  · split at hc
    · cases hc
    · rcases List.mem_cons.1 hc with rfl | hc
      · exact .inr (.inl rfl)
      · exact .inl (h.isDigit c (List.mem_append_right _ hc))

theorem Written.isExpected {sign? : Option Char} {text : List Char} (h : Written signs sign? text)
    (hsign : ∀ sign ∈ sign?, sign = '+' ∨ sign = '-') (hc : c ∈ text) : IsExpected signs c := by
  cases h with
  | plain h => exact isExpected_of_mem_pointedBy h hc
  | scientific h sign hsome hdigits =>
    rcases List.mem_append.1 hc with hc | hc
    · rcases List.mem_append.1 hc with hc | hc
      · exact isExpected_of_mem_pointedBy h hc
      · exact .inr (.inr (.inr (.inl hc)))
    · rcases List.mem_cons.1 hc with rfl | hc
      · exact .inr (.inr (.inr (.inr (hsign c rfl))))
      · exact .inl (hdigits c hc)

/-- The number that is shown has no sign, whether it is a quotient or not, so
that its text has digits and a point and nothing else. -/
theorem unsigned_shownNumber (value : Float) : Unsigned (shownNumber value) := by
  unfold shownNumber
  split
  · exact (unsigned_abs value).div (unsigned_powInt unsigned_ten _)
  · exact unsigned_abs value

/-- **With a finite mantissa** a number is written with an exponent, in the
sense of `Written`. -/
theorem written_scientific_of_isFinite {size : Float}
    (hunsigned : Unsigned (size / powInt 10 (exponentOf size)))
    (hfinite : (size / powInt 10 (exponentOf size)).isFinite = true) :
    ∃ sign, (sign = '+' ∨ sign = '-') ∧ Written signs (some sign) (scientific signs size) := by
  have hsign : ∀ exponent : ℤ,
      (if exponent < 0 then '-' else '+') = '+' ∨ (if exponent < 0 then '-' else '+') = '-' := by
    intro exponent
    split <;> simp
  have hsigned := hunsigned.isSigned hfinite
  have hdivided := AtLeastOne.ten.isFinite_div hfinite hsigned
  rw [scientific]
  dsimp only
  split
  · have hunsigned' := (hunsigned.div unsigned_ten).isSigned hdivided
    exact ⟨_, hsign _, written_mantissa signs hdivided hunsigned' _⟩
  · exact ⟨_, hsign _, written_mantissa signs hfinite hsigned _⟩

/-- **If the number that is shown is finite**, its size is written as expected.
The cases are those of `sizeText`: zero, an exponent, a whole number, a
decimal. -/
theorem isExpected_of_mem_sizeText (hshown : (shownNumber value).isFinite = true)
    (hc : c ∈ sizeText signs value) : IsExpected signs c := by
  have hunsigned := unsigned_shownNumber value
  unfold shownNumber at hshown hunsigned
  rw [sizeText] at hc
  split at hc
  · exact .inl (List.mem_singleton.1 hc ▸ rfl)
  · split at hc
    · rename_i hexponent
      rw [if_pos hexponent] at hshown hunsigned
      obtain ⟨sign, hsign, hwritten⟩ := written_scientific_of_isFinite hunsigned hshown
      exact hwritten.isExpected (fun _ h => Option.some.inj h ▸ hsign) hc
    · rename_i hexponent
      rw [if_neg hexponent] at hshown hunsigned
      split at hc
      · exact .inl (Text.isDigit_of_mem_ofNat hc)
      · obtain ⟨whole, fraction, hdigits, htext⟩ := exists_trimmed signs hshown
          (hunsigned.isSigned hshown) (max 0 (min significantDigits
            (significantDigits - max 1 (exponentOf value.abs + 1)))).toNat
        rw [plain, htext] at hc
        exact isExpected_of_mem_pointedBy hdigits hc

/-- **Otherwise its size begins with a word.** Only a mantissa can fail to be
finite, and its text comes first. -/
theorem exists_word_of_sizeText (signs : NumberSigns) (hfinite : value.isFinite = true)
    (hshown : (shownNumber value).isFinite = false) :
    ∃ word ∈ words, word <+: sizeText signs value := by
  have hunsigned := unsigned_shownNumber value
  unfold shownNumber at hshown hunsigned
  split at hshown
  · rename_i hexponent
    have hzero : (value == 0) = false := by
      refine Bool.eq_false_iff.2 fun hzero => ?_
      rw [exponentSign?, if_pos hzero] at hexponent
      cases hexponent
    rw [if_pos hexponent] at hunsigned
    rw [sizeText, hzero, if_neg Bool.false_ne_true, if_pos hexponent, scientific]
    dsimp only
    rcases fixedText_of_not_isFinite mantissaPlaces hunsigned hshown with h | h <;> rw [h]
    · exact ⟨"inf".toList, List.mem_cons_self, _, rfl⟩
    · exact ⟨"NaN".toList, List.mem_cons_of_mem _ List.mem_cons_self, _, rfl⟩
  · rw [(isFinite_magnitude_abs hfinite).1] at hshown
    cases hshown

theorem printed (signs : NumberSigns) (pieces : List Piece) (hfinite : value.isFinite = true) :
    Printed signs pieces value := by
  refine ⟨fun hshown c hc => ?_, fun hshown hnumber => ?_⟩
  · obtain ⟨piece, hpiece, hc⟩ := List.mem_flatMap.1 hc
    cases piece with
    | literal text => exact .inr ⟨text, hpiece, hc⟩
    | number =>
      left
      change c ∈ format signs value at hc
      rcases format_eq_sizeText signs hfinite with hformat | hformat <;> rw [hformat] at hc
      · exact isExpected_of_mem_sizeText hshown hc
      · rcases List.mem_cons.1 hc with rfl | hc
        · exact .inr (.inr (.inl rfl))
        · exact isExpected_of_mem_sizeText hshown hc
  · obtain ⟨word, hword, hfront⟩ := exists_word_of_sizeText signs hfinite hshown
    have hpart : word <:+: format signs value := by
      rcases format_eq_sizeText signs hfinite with hformat | hformat <;> rw [hformat]
      · exact hfront.isInfix
      · exact hfront.isInfix.trans (List.suffix_cons _ _).isInfix
    obtain ⟨front, back, rfl⟩ := List.append_of_mem hnumber
    refine ⟨word, hword, hpart.trans ?_⟩
    rw [formatPieces, List.flatMap_append, List.flatMap_cons]
    exact ⟨_, _, List.append_assoc _ _ _⟩

/-- **From the exact limit on** the number that is shown is finite: the exponent
is that of the leading digit there (`exponentOf_eq`), so the mantissa is below
ten, up to rounding. -/
theorem isFinite_shownNumber (hfinite : value.isFinite = true)
    (hexact : (value == 0) = true ∨ exactLimit ≤ value.abs) :
    (shownNumber value).isFinite = true := by
  rw [shownNumber]
  cases hsign : exponentSign? value with
  | none => exact (isFinite_magnitude_abs hfinite).1
  | some sign =>
    have hzero : (value == 0) = false := by
      refine Bool.eq_false_iff.2 fun hzero => ?_
      rw [exponentSign?, if_pos hzero] at hsign
      cases hsign
    have hdouble := isDouble_magnitude hfinite (significand_pos hzero)
    have hle := hexact.resolve_left (by rw [hzero]; exact Bool.false_ne_true)
    rw [exponentSign?, hzero, if_neg Bool.false_ne_true] at hsign
    rw [Option.isSome_some, if_pos rfl]
    rw [abs_eq hdouble] at hle hsign ⊢
    have hfar : (magnitude value).toRat < 1 ∨ 2 ^ (24 : ℤ) ≤ (magnitude value).toRat := by
      split at hsign
      · exact .inr (zpow_le_of_upperLimit_le hdouble ‹_›)
      · split at hsign
        · exact .inl ((toRat_lt_of_lt_lowerLimit hdouble ‹_›).trans (by norm_num))
        · cases hsign
    obtain ⟨m, hm, hmantissa, -⟩ :=
      exists_mantissa hdouble (zpow_le_of_exactLimit_le hdouble hle) hfar
    rw [exponentOf_eq hdouble hle, hmantissa]
    exact hm.isFinite_toFloat

/-- **Below it** it is when the power of ten is a double that the logarithm
leads to. Further down the power is zero, and the mantissa an infinity. -/
theorem isFinite_shownNumber_iff (hfinite : value.isFinite = true) (hzero : (value == 0) = false)
    (hsmall : value.abs < exactLimit) (hlow : -324 ≤ exponentOf value.abs) :
    (shownNumber value).isFinite = true ↔ -308 ≤ exponentOf value.abs := by
  have hdouble := isDouble_magnitude hfinite (significand_pos hzero)
  have habs := abs_eq hdouble
  rw [habs] at hsmall
  have hlower := lt_lowerLimit_of_lt_exactLimit hdouble hsmall
  have hexponent : (exponentSign? value).isSome = true := by
    rw [exponentSign?, hzero, if_neg Bool.false_ne_true, habs]
    by_cases hupper : upperLimit ≤ hdouble.toFloat
    · rw [if_pos hupper]
      rfl
    · rw [if_neg hupper, if_pos hlower]
      rfl
  rw [shownNumber, if_pos hexponent]
  rw [habs] at hlow ⊢
  refine isFinite_div_powInt_iff hdouble ?_ hlow
  refine (toRat_lt_of_lt_exactLimit hdouble hsmall).le.trans ?_
  rw [← zpow_add₀ two_ne_zero]
  exact zpow_le_zpow_right₀ one_le_two (by decide)

/-- **When the number the general format shows is finite**, for one that is
finite itself. -/
structure Reaches (value : Float) : Prop where
  /-- Zero is, and so are numbers that are not very small. -/
  exact_limit : (value == 0) = true ∨ exactLimit ≤ value.abs →
    (shownNumber value).isFinite = true
  /-- Very small ones are when the power of ten is a double. -/
  logarithm : (value == 0) = false → value.abs < exactLimit → -324 ≤ exponentOf value.abs →
    ((shownNumber value).isFinite = true ↔ -308 ≤ exponentOf value.abs)

end General

/-! ## Finite numbers

Digits are written by sections with places and by general ones. Each kind has a
`Reaches` of its own, which says for what numbers the one that is shown is
finite. -/

/-- **What is printed of a finite number.** A section that writes digits prints
what is expected of it just when the number it shows is finite, whatever it was
compiled from, and otherwise a word for what is not finite
(`NumberSection.Printed`); so does a general section (`General.Printed`). The
number that is shown is finite unless percent signs make it too large, or it is
divided by a power of ten for an exponent and is too small for that
(`NumberSection.Reaches`, `General.Reaches`). -/
theorem printed_of_isFinite {value : Float} (hfinite : value.isFinite = true) :
    (∀ (signs : NumberSigns) (layout : NumberSection), ∃ glyphs,
        layout.spell? signs value = some glyphs ∧ layout.Printed signs value glyphs)
      ∧ (∀ (signs : NumberSigns) (pieces : List General.Piece),
          General.Printed signs pieces value)
      ∧ (∀ layout : NumberSection, layout.Reaches value)
      ∧ General.Reaches value :=
  ⟨fun signs layout => layout.exists_printed signs hfinite,
    fun signs pieces => General.printed signs pieces hfinite,
    fun layout => layout.reaches hfinite, General.isFinite_shownNumber hfinite,
    General.isFinite_shownNumber_iff hfinite⟩

/-- Whole percentages, as the pattern `0%` has them. -/
def wholePercent : DigitPattern where
  integer := ['0']
  scale := 0
  fraction := []
  percents := 1
  integer_mem := by simp
  integer_head := by decide
  integer_last := by decide
  fraction_mem := by simp

/-- A number that is too large for percentages only: whole percentages have a
word in their text, and the general format has none. -/
theorem printed_of_isFinite_wholePercent :
    (1e308 : Float).isFinite = true
      ∧ (∃ glyphs, textOf glyphs = wholePercent.layout.format .standard 1e308
        ∧ ∃ word ∈ words, word <:+: charsOf .integer glyphs ++ charsOf .whole glyphs)
      ∧ ∀ c ∈ General.formatPieces .standard 1e308 [.number], General.IsExpected .standard c := by
  have hfinite : (1e308 : Float).isFinite = true := by decide +kernel
  obtain ⟨hsections, hgeneral, -, hreaches⟩ := printed_of_isFinite hfinite
  obtain ⟨glyphs, -, hprinted⟩ := hsections .standard wholePercent.layout
  have hshows : ¬wholePercent.layout.ShowsFinite 1e308 := by
    unfold NumberSection.ShowsFinite
    decide +kernel
  refine ⟨hfinite, ⟨glyphs, hprinted.text_eq, hprinted.exists_word hshows⟩, fun c hc => ?_⟩
  have hlimit : General.exactLimit ≤ (1e308 : Float).abs := by decide +kernel
  rcases (hgeneral .standard [.number]).isExpected (hreaches.exact_limit (.inr hlimit))
      c hc with h | ⟨text, h, -⟩
  · exact h
  · cases List.mem_singleton.1 h

/-- **A finite number is printed as an infinity** in whole percentages: the
number itself is looked at before it is scaled, and its hundredths are not. -/
theorem format?_wholePercent :
    (1e308 : Float).isFinite = true ∧ wholePercent.text = "0%".toList
      ∧ ∃ formatter, Converter.formatterOf? .numberFormat wholePercent.text = .ok formatter
        ∧ formatter.format? .standard (.number 1e308) = some ⟨"inf%".toList, none⟩ := by
  refine ⟨by decide +kernel, rfl, _, wholePercent.formatterOf?_text, ?_⟩
  decide +kernel

end Worksheet.Format
