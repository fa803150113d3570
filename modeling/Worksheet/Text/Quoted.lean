import Worksheet.Text.Shown

/-!
# Quoted text

The form in which an error message shows a text or a single character: between
quotation marks, with the mark itself and the backslash escaped, the common
control characters by letter, and every other character that does not show as
its code point in hexadecimal.
-/

namespace Worksheet.Text

/-- One character inside the given quotation mark. -/
def escape (mark c : Char) : List Char :=
  if c = mark ∨ c = '\\' then ['\\', c]
  else if c = '\n' then ['\\', 'n']
  else if c = '\r' then ['\\', 'r']
  else if c = '\t' then ['\\', 't']
  else if c.toNat = 0 then ['\\', '0']
  else if isShown c then [c]
  else "\\u\x7b".toList ++ Nat.toDigits 16 c.toNat ++ ['\x7d']

/-- A text between double quotation marks. -/
def quoted (text : List Char) : List Char :=
  '"' :: text.flatMap (escape '"') ++ ['"']

/-- A character between single quotation marks. -/
def quotedChar (c : Char) : List Char :=
  '\'' :: escape '\'' c ++ ['\'']

end Worksheet.Text

namespace Worksheet

/-- A text between double quotation marks, as error messages show it. -/
def quote (text : List Char) : String :=
  String.ofList (Text.quoted text)

/-- A character between single quotation marks, as error messages show it. -/
def quoteChar (c : Char) : String :=
  String.ofList (Text.quotedChar c)

end Worksheet
