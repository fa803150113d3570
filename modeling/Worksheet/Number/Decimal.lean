import Worksheet.Number.Binary
import Worksheet.Text.Basic

/-!
# Decimal texts of numbers

Two forms are written and one is read. `fixedText` writes the exact value
rounded to a number of places, a half going to the even neighbour. `plainText`
writes the fewest digits that read back as the same number, never with an
exponent. `ofDigits` reads digits and a power of ten to the nearest double.

The digits of `plainText` are found by looking at the grids of one, two, …
seventeen significant digits in turn. A grid point reads back as the number when
it lies in the interval of reals that round to it; if any point of a grid does,
one of the two neighbours of the number does.
-/

namespace Worksheet.Number

/-- A number `digits * 10 ^ exponent`. -/
structure Decimal where
  /-- The significant digits as a whole number. -/
  digits : Nat
  /-- The power of ten they are scaled by. -/
  exponent : Int
  deriving DecidableEq, Repr

/-! ## Fixed places -/

/-- The digits before and after the point of a number rounded to a number of
places. -/
def fixedDigits (places : Nat) (b : Binary) : List Char × List Char :=
  let digits := Text.ofNatPadded (places + 1) (roundHalfEven (b.num * 10 ^ places) b.den)
  digits.splitAt (digits.length - places)

/-- **A number with a fixed count of decimal places**, its exact value rounded
by `fixedDigits`. An infinity and NaN are spelled out. -/
def fixedText (places : Nat) (x : Float) : List Char :=
  if x.isNaN then "NaN".toList
  else
    let sign := if isSigned x then ['-'] else []
    if x.isInf then sign ++ "inf".toList
    else
      let (whole, fraction) := fixedDigits places (magnitude x)
      sign ++ whole ++ (if places = 0 then [] else '.' :: fraction)

/-! ## Fewest digits -/

/-- The decimal exponent of the leading digit of a positive fraction. -/
def leadingExponent (num den : Nat) : Int :=
  if den ≤ num then ((Nat.toDigits 10 (num / den)).length : Int) - 1
  else
    let places := (Nat.toDigits 10 (den / num)).length - 1
    if num * 10 ^ places = den then -(places : Int) else -(places : Int) - 1

/-- Whether a decimal lies in the interval of reals that round to a positive
double. The ends belong to the interval when the significand is even, and the
lower one is nearer at a power of two. -/
def readsBack (b : Binary) (d : Decimal) : Bool :=
  let below := if b.significand = 2 ^ 52 ∧ -1074 < b.exponent then 1 else 2
  let scale := 2 ^ b.exponent.toNat * 10 ^ (-d.exponent).toNat
  let low := (4 * b.significand - below) * scale
  let high := (4 * b.significand + 2) * scale
  let point := d.digits * 10 ^ d.exponent.toNat * 4 * b.den
  if b.significand % 2 = 0 then low ≤ point && point ≤ high else low < point && point < high

/-- On the grid of `10 ^ exponent`, the nearest neighbour of a double that reads
back as it (`readsBack`); of two equally near ones the larger. -/
def gridPoint? (b : Binary) (exponent : Int) : Option Decimal :=
  let num := b.num * 10 ^ (-exponent).toNat
  let den := b.den * 10 ^ exponent.toNat
  let lower : Decimal := ⟨num / den, exponent⟩
  let upper : Decimal := ⟨num / den + 1, exponent⟩
  match readsBack b lower, readsBack b upper with
  | true, true => if 2 * (num % den) < den then some lower else some upper
  | true, false => some lower
  | false, true => some upper
  | false, false => none

/-- **The decimal of fewest digits** that reads back as a positive double, by
trying the grids from the coarsest on. Seventeen digits are always enough. -/
def shortest (b : Binary) : Decimal :=
  let leading := leadingExponent b.num b.den
  ((List.range 17).findSome? fun (n : Nat) => gridPoint? b (leading - n)).getD ⟨b.num / b.den, 0⟩

/-- A decimal written without an exponent. -/
def Decimal.positional (d : Decimal) : List Char :=
  let all := Text.ofNat d.digits
  let digits := Text.dropTrailing (· == '0') all
  let exponent := d.exponent + (all.length - digits.length : Nat)
  if 0 ≤ exponent then digits ++ List.replicate exponent.toNat '0'
  else
    let places := (-exponent).toNat
    let padded := Text.padLeft (places + 1) '0' digits
    padded.take (padded.length - places) ++ '.' :: padded.drop (padded.length - places)

/-- A number with the fewest digits that read back as it, without an exponent. -/
def plainText (x : Float) : List Char :=
  if x.isNaN then "NaN".toList
  else
    let sign := if isSigned x then ['-'] else []
    if x.isInf then sign ++ "inf".toList
    else if x == 0 then sign ++ ['0']
    else sign ++ (shortest (magnitude x)).positional

/-! ## Reading -/

/-- **The double nearest to `digits * 10 ^ exponent`.** A number too large for
every double is infinite and one below half the smallest is zero; neither is
scaled out before it is seen to be so. -/
def Decimal.toFloat (d : Decimal) : Float :=
  let leading := d.exponent + (Nat.toDigits 10 d.digits).length
  if d.digits = 0 ∨ leading < -340 then 0
  else if 320 < leading then 1.0 / 0.0
  else Float.ofScientific d.digits (d.exponent < 0) d.exponent.natAbs

/-- The double nearest to digits around a decimal point, scaled by a power of
ten. -/
def ofDigits (whole fraction : List Char) (exponent : Int) : Float :=
  (Decimal.mk (Text.digitsValue (whole ++ fraction)) (exponent - fraction.length)).toFloat

end Worksheet.Number
