import Worksheet.Convert

/-!
# Settings for reading formulas

A formula is read with a converter, which reads what is typed into a cell, and a
pattern of its own for the numbers inside formulas. That pattern leaves signs to
the operators, so that `1-2` is a difference.
-/

namespace Worksheet.Formula

/-- What formulas and entries are read with. -/
structure Reader where
  /-- The converter for entries. -/
  converter : Converter
  /-- The pattern for the numbers in a formula. -/
  literals : Read.NumberReader

namespace Reader

/-- The pattern for numbers in a formula that is used when none is given. -/
def standardLiterals : List Char :=
  "#.#E+#;#.#".toList

/-- The reader with some patterns, a locale and a pattern for the numbers in a
formula. -/
def ofPatterns? (patterns : ConverterPatterns) (locale : Locale) (literals : List Char) :
    Except Pattern.PatternError Reader := do
  let converter ← Converter.ofPatterns? patterns locale
  let literals ← Converter.numberReaderOf? literals
  return { converter, literals }

/-- The standard patterns make up a reader. -/
theorem isSome_ofPatterns?_standard :
    (ofPatterns? .standard .standard standardLiterals).toOption.isSome = true := by
  decide +kernel

/-- The reader with the standard patterns and locale. -/
def standard : Reader :=
  (ofPatterns? .standard .standard standardLiterals).toOption.get isSome_ofPatterns?_standard

/-- The signs of numbers in a formula. -/
def signs (reader : Reader) : NumberSigns :=
  reader.converter.locale.numbers

/-- The number at the front of a formula, and what follows it, by the pattern
for literals. It has to end in front of a character that `Read.endsNumber`
allows. -/
def readNumber? (reader : Reader) (input : List Char) : Option (Float × List Char) :=
  reader.literals.readFront? reader.signs .expression input

end Reader

end Worksheet.Formula
