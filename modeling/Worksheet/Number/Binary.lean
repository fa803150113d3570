import Worksheet.Text.Basic

/-!
# Binary numbers, exactly

A finite double is a whole number times a power of two. Everything that must not
depend on rounding is computed on that pair with whole numbers: the part before
the point, the nearest whole number, the comparison with a decimal. Only then is
a result turned back into a double.

A quotient is rounded to the nearest whole number; of two that are equally near
it is the even one (`roundHalfEven`) or the larger one (`roundHalfUp`).
-/

namespace Worksheet.Number

/-- **The number `significand * 2 ^ exponent`.** `num` and `den` are the same
number as a fraction, with a power of two below. -/
structure Binary where
  /-- The whole number that is scaled. -/
  significand : Nat
  /-- The power of two it is scaled by. -/
  exponent : Int
  deriving DecidableEq, Repr

namespace Binary

/-- The numerator of the number as a fraction whose denominator is `den`. -/
def num (b : Binary) : Nat :=
  b.significand * 2 ^ b.exponent.toNat

/-- The denominator, a power of two. -/
def den (b : Binary) : Nat :=
  2 ^ (-b.exponent).toNat

theorem den_pos (b : Binary) : 0 < b.den :=
  Nat.two_pow_pos _

/-- The part before the point. -/
def whole (b : Binary) : Nat :=
  b.num / b.den

end Binary

/-- The size of a finite double, its sign left aside. It says nothing of an
infinity or NaN; whoever takes it has asked before. -/
def magnitude (x : Float) : Binary :=
  let bits : Nat := x.toBits.toNat
  let field : Nat := bits % 2 ^ 52
  let power : Nat := bits / 2 ^ 52 % 2 ^ 11
  if power = 0 then ⟨field, -1074⟩ else ⟨2 ^ 52 + field, (power : Int) - 1075⟩

/-- Whether the sign bit is set, which it also is for negative zero. -/
def isSigned (x : Float) : Bool :=
  2 ^ 63 ≤ x.toBits.toNat

/-- The whole number nearest to a quotient, the even one when two are equally
near. -/
def roundHalfEven (num den : Nat) : Nat :=
  let quotient := num / den
  let rest := num % den
  if 2 * rest < den then quotient
  else if den < 2 * rest then quotient + 1
  else if quotient % 2 = 0 then quotient
  else quotient + 1

/-- The whole number nearest to a quotient, the larger one when two are equally
near. -/
def roundHalfUp (num den : Nat) : Nat :=
  (2 * num + den) / (2 * den)

/-- The double nearest to an integer. -/
def ofInt (n : Int) : Float :=
  if n < 0 then -(Float.ofNat n.natAbs) else Float.ofNat n.natAbs

/-- The number with its fractional part removed; infinities and NaN stay what
they are. -/
def trunc (x : Float) : Float :=
  let b := magnitude x
  if 0 ≤ b.exponent then x
  else if isSigned x then -(Float.ofNat b.whole) else Float.ofNat b.whole

/-- The fractional part, with the sign of the number. -/
def fract (x : Float) : Float :=
  x - trunc x

/-- The largest integer that is not above a number; zero for NaN, and beyond
every double for an infinity. -/
def floorInt (x : Float) : Int :=
  if x.isNaN then 0
  else
    let b := magnitude x
    if isSigned x then -((b.num + b.den - 1) / b.den : Nat) else b.whole

/-- The integer a number is cut to, held between two bounds; zero for NaN. -/
def toIntBetween (low high : Int) (x : Float) : Int :=
  if x.isNaN then 0
  else
    let size : Int := (magnitude x).whole
    max low (min high (if isSigned x then -size else size))

/-- The nearest whole number to the size of a finite number, halves going up. -/
def roundNat (x : Float) : Nat :=
  let b := magnitude x
  roundHalfUp b.num b.den

/-- Repeated squaring: `result * base ^ n`. -/
def powLoop (result base : Float) (n : Nat) : Float :=
  let result := if n % 2 = 1 then result * base else result
  if n / 2 = 0 then result else powLoop result (base * base) (n / 2)
termination_by n
decreasing_by omega

/-- An integer power by repeated squaring (`powLoop`), the reciprocal being
taken last: a negative power may be zero where the power of the reciprocal is
not. -/
def powInt (base : Float) (exponent : Int) : Float :=
  let size := powLoop 1 base exponent.natAbs
  if exponent < 0 then 1 / size else size

/-- The remainder in `[0, 1]` a number leaves after whole units are taken away:
the fractional part, raised by one when it is negative. -/
def unitRemainder (x : Float) : Float :=
  let rest := if x.isInf then 0.0 / 0.0 else fract x
  if rest < 0 then rest + 1 else rest

end Worksheet.Number
