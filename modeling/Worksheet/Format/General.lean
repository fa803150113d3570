import Worksheet.Locale.Numbers
import Worksheet.Number.Decimal
import Worksheet.Pattern.Section

/-!
# The general number format

The format of a number no pattern was given for: whole numbers in full, other
numbers with ten significant digits, and very large or very small ones with an
exponent and six digits.
-/

namespace Worksheet.Format.General

open Pattern

/-- Numbers of this size and more are written with an exponent. -/
def upperLimit : Float := 1e11

/-- Numbers below this size are written with an exponent. -/
def lowerLimit : Float := 1e-9

/-- The significant digits of a number written without an exponent. -/
def significantDigits : Int := 10

/-- The digits after the point of a mantissa. -/
def mantissaPlaces : Nat := 5

/-- A decimal without the zeros at the end of its fraction, and without a point
at the end. -/
def trimFraction (text : List Char) : List Char :=
  if text.contains '.' then Text.dropTrailing (· == '.') (Text.dropTrailing (· == '0') text)
  else text

/-- A decimal with another decimal point. -/
def withPoint (signs : NumberSigns) (text : List Char) : List Char :=
  text.map fun c => if c = '.' then signs.decimalPoint else c

/-- Numbers below this size have their exponent from a logarithm. -/
def exactLimit : Float := 1e-300

/-- The decimal exponent of a positive number. A logarithm is rounded, so just
below a power of ten it may be too large by one. This is seen only where the
powers of ten run out, below the exact limit: elsewhere the mantissa rounds up
to ten, and the place that is missing holds a zero. -/
def exponentOf (size : Float) : Int :=
  if size < exactLimit then
    max (-(2 ^ 31)) (min (2 ^ 31 - 1) (Number.floorInt size.log10))
  else
    let b := Number.magnitude size
    Number.leadingExponent b.num b.den

/-- A positive number with an exponent. A mantissa that rounds up to ten is
taken down a step. -/
def scientific (signs : NumberSigns) (size : Float) : List Char :=
  let exponent := exponentOf size
  let mantissa := size / Number.powInt 10 exponent
  let rendered := Number.fixedText mantissaPlaces mantissa
  let (rendered, exponent) :=
    if rendered.take 2 = ['1', '0'] then
      (Number.fixedText mantissaPlaces (mantissa / 10), exponent + 1)
    else (rendered, exponent)
  withPoint signs (trimFraction rendered) ++ signs.exponentSymbol
    ++ (if exponent < 0 then '-' else '+') :: Text.ofNatPadded 2 exponent.natAbs

/-- A positive number without an exponent. -/
def plain (signs : NumberSigns) (size : Float) : List Char :=
  let wholeDigits := max 1 (exponentOf size + 1)
  let places := max 0 (min significantDigits (significantDigits - wholeDigits))
  withPoint signs (trimFraction (Number.fixedText places.toNat size))

/-- **A number in the general format**: in full if it is whole and below
`upperLimit`, with an exponent by `scientific` beyond the limits, and by `plain`
between them. The sign is put in front. -/
def format (signs : NumberSigns) (value : Float) : List Char :=
  if value.isNaN || value.isInf then Number.plainText value
  else if value == 0 then ['0']
  else
    let size := value.abs
    let text :=
      if Number.fract value == 0 && size < upperLimit then
        Text.ofNat (Number.magnitude size).whole
      else if upperLimit ≤ size || size < lowerLimit then scientific signs size
      else plain signs size
    if value < 0 then signs.negativeSign :: text else text

/-- A piece of a general section. -/
inductive Piece where
  /-- The number. -/
  | number
  | literal (text : List Char)
  deriving DecidableEq

/-- The piece a leaf of a general section is. -/
def pieceOf? : Token → Option Piece
  | .leaf .general _ => some .number
  | .leaf (.underscore _) _ => some (.literal [' '])
  | .leaf kind text => (kind.literal? text).map .literal
  | .parent .. => none

/-- A number as the pieces of a general section show it. -/
def formatPieces (signs : NumberSigns) (value : Float) (pieces : List Piece) : List Char :=
  pieces.flatMap fun
    | .number => format signs value
    | .literal text => text

end Worksheet.Format.General
