import Worksheet.Proofs.Read.Moment

/-!
# What a converter is made of

A converter is compiled from its patterns one by one (`Converter.Compiled`), so
what is known of a pattern is known of the formatter or the reader made of it.
The standard patterns write dates and times in the order of their units
(`Converter.dateFormat_standard` and the like), and look first for what they
write; only a time is looked for with a half of the day before
(`Converter.timeReader_standard`).
-/

namespace Worksheet.Converter

open Pattern Format Read

variable {patterns : ConverterPatterns} {locale : Locale} {converter : Converter}

/-- **A converter is compiled from some patterns**: each of its parts from its
own. -/
structure Compiled (patterns : ConverterPatterns) (locale : Locale) (converter : Converter) :
    Prop where
  numberFormat : formatterOf? .numberFormat patterns.numberFormat = .ok converter.numberFormat
  dateFormat : formatterOf? .dateFormat patterns.dateFormat = .ok converter.dateFormat
  dateTimeFormat :
    formatterOf? .dateTimeFormat patterns.dateTimeFormat = .ok converter.dateTimeFormat
  timeFormat : formatterOf? .timeFormat patterns.timeFormat = .ok converter.timeFormat
  numberReader : numberReaderOf? patterns.numberParse = .ok converter.numberReader
  dateReader : momentReaderOf? .dateParse patterns.dateParse = .ok converter.dateReader
  dateTimeReader :
    momentReaderOf? .dateTimeParse patterns.dateTimeParse = .ok converter.dateTimeReader
  timeReader : momentReaderOf? .timeParse patterns.timeParse = .ok converter.timeReader
  locale : converter.locale = locale

/-- Every converter is compiled from its patterns, and there is no other way to
one. -/
theorem compiled_of_ofPatterns? (h : ofPatterns? patterns locale = .ok converter) :
    Compiled patterns locale converter := by
  obtain ⟨_, hnumberFormat, h⟩ := exists_of_bind_eq_ok h
  obtain ⟨_, hdateFormat, h⟩ := exists_of_bind_eq_ok h
  obtain ⟨_, hdateTimeFormat, h⟩ := exists_of_bind_eq_ok h
  obtain ⟨_, htimeFormat, h⟩ := exists_of_bind_eq_ok h
  obtain ⟨_, -, h⟩ := exists_of_bind_eq_ok h
  obtain ⟨_, hnumberReader, h⟩ := exists_of_bind_eq_ok h
  obtain ⟨_, hdateReader, h⟩ := exists_of_bind_eq_ok h
  obtain ⟨_, hdateTimeReader, h⟩ := exists_of_bind_eq_ok h
  obtain ⟨_, htimeReader, h⟩ := exists_of_bind_eq_ok h
  obtain rfl := Except.ok.inj h
  exact ⟨hnumberFormat, hdateFormat, hdateTimeFormat, htimeFormat, hnumberReader, hdateReader,
    hdateTimeReader, htimeReader, rfl⟩

/-- The locale changes nothing about the patterns, so it does not matter to
whether they compile. -/
theorem ofPatterns?_eq_map (patterns : ConverterPatterns) (locale : Locale) :
    ofPatterns? patterns locale
      = (fun converter => { converter with locale := locale }) <$>
          ofPatterns? patterns .standard := by
  simp only [ofPatterns?, map_bind, map_pure]

/-- **The standard patterns make up a converter in every locale.** -/
theorem ofPatterns?_standard (locale : Locale) :
    ofPatterns? .standard locale = .ok { standard with locale := locale } := by
  rw [ofPatterns?_eq_map, eq_ok_get isSome_ofPatterns?_standard]
  rfl

theorem compiled_standard : Compiled .standard .standard standard :=
  compiled_of_ofPatterns? (eq_ok_get isSome_ofPatterns?_standard)

/-! ## The standard patterns for dates and times

What the patterns of `ConverterPatterns.standard` are compiled to, written out.
Readers try several shapes, in the order of the pattern, and `datePieces`,
`timePieces` and `dateTimePieces` are those that values are printed in. -/

def datePieces : List Component :=
  [.year 4, .literal ['-'], .month 2, .literal ['-'], .day 2]

/-- A time, the larger units first, as it is printed by the standard patterns. -/
def timePieces : List Component :=
  [.hour 2, .literal [':'], .minute 2, .literal [':'], .second 2]

def dateTimePieces : List Component :=
  datePieces ++ .whitespace [' '] :: timePieces

theorem dateFormat_standard : standard.dateFormat = .moment datePieces none :=
  Except.ok.inj (compiled_standard.dateFormat.symm.trans
    (eq_moment_of_components? (by decide +kernel)))

theorem dateTimeFormat_standard : standard.dateTimeFormat = .moment dateTimePieces none :=
  Except.ok.inj (compiled_standard.dateTimeFormat.symm.trans
    (eq_moment_of_components? (by decide +kernel)))

theorem timeFormat_standard : standard.timeFormat = .moment timePieces none :=
  Except.ok.inj (compiled_standard.timeFormat.symm.trans
    (eq_moment_of_components? (by decide +kernel)))

/-- What is printed as a date is looked for first. -/
theorem dateReader_standard : standard.dateReader = ⟨.date, datePieces ::
    [[.year 4, .literal ['/'], .month 2, .literal ['/'], .day 2],
      [.day 1, .whitespace [' '], .month 3, .whitespace [' '], .year 4],
      [.month 4, .whitespace [' '], .day 1, .literal [','], .whitespace [' '], .year 4]]⟩ :=
  Except.ok.inj (compiled_standard.dateReader.symm.trans (eq_ok_of_toOption (by decide +kernel)))

/-- What is printed as a date with a time is looked for first, with a fraction
or without. -/
theorem dateTimeReader_standard : standard.dateTimeReader
    = ⟨.dateTime, (dateTimePieces ++ [.secondFraction 3]) ::
      [datePieces ++ [.whitespace [' '], .hour 2, .literal [':'], .minute 2],
        [.year 4, .literal ['/'], .month 2, .literal ['/'], .day 2, .whitespace [' ']]
          ++ timePieces ++ [.secondFraction 3],
        [.year 4, .literal ['/'], .month 2, .literal ['/'], .day 2, .whitespace [' '],
          .hour 2, .literal [':'], .minute 2]]⟩ :=
  Except.ok.inj (compiled_standard.dateTimeReader.symm.trans
    (eq_ok_of_toOption (by decide +kernel)))

/-- What is printed as a time is looked for after a time with a half of the
day. -/
theorem timeReader_standard : standard.timeReader
    = ⟨.time, [.hour 1, .literal [':'], .minute 2, .literal [':'], .second 2, .whitespace [' '],
          .amPm "AM/PM".toList] ::
      [.hour 1, .literal [':'], .minute 2, .whitespace [' '], .amPm "AM/PM".toList] ::
      (timePieces ++ [.secondFraction 3]) :: [[.hour 2, .literal [':'], .minute 2]]⟩ :=
  Except.ok.inj (compiled_standard.timeReader.symm.trans
    (eq_ok_of_toOption (by decide +kernel)))

theorem locale_standard : standard.locale = .standard :=
  compiled_standard.locale

end Worksheet.Converter
