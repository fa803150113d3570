import Worksheet.Locale.Dates
import Worksheet.Locale.Numbers

/-!
# Locales

Everything that differs from place to place in written values.
-/

namespace Worksheet

/-- The signs of numbers and the names in dates. -/
structure Locale where
  /-- The signs of numbers. -/
  numbers : NumberSigns
  /-- The names in dates. -/
  dates : DateNames
  deriving DecidableEq

/-- The locale used when none is given. -/
def Locale.standard : Locale where
  numbers := .standard
  dates := .standard

end Worksheet
