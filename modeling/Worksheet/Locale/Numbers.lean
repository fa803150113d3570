import Worksheet.Text.Basic

/-!
# Signs of numbers

The characters a number is written with: its point, its signs, the exponent and
currency symbols. They are always given; nothing is looked up in the
environment.
-/

namespace Worksheet

/-- **The characters and symbols of written numbers.** They need not differ from
one another. -/
structure NumberSigns where
  /-- Between whole part and fraction. -/
  decimalPoint : Char
  /-- Between groups of three digits. -/
  groupSeparator : Char
  /-- Before the exponent. -/
  exponentSymbol : List Char
  /-- Before a negative number. -/
  negativeSign : Char
  /-- Before a positive number where one is wanted. -/
  positiveSign : Char
  /-- After a number in hundredths. -/
  percentSymbol : Char
  /-- Beside an amount of money. -/
  currencySymbol : List Char
  deriving DecidableEq

namespace NumberSigns

/-- The signs used when none are given. -/
def standard : NumberSigns where
  decimalPoint := '.'
  groupSeparator := ','
  exponentSymbol := ['E']
  negativeSign := '-'
  positiveSign := '+'
  percentSymbol := '%'
  currencySymbol := ['$']

/-- What follows the exponent symbol at the start of a text, in either case. -/
def dropExponent? (signs : NumberSigns) (text : List Char) : Option (List Char) :=
  Text.dropIgnoringCase? signs.exponentSymbol text

end NumberSigns

end Worksheet
