import Worksheet.Format.General

/-!
# Fraction sections

A fraction section writes a number as a whole part and a fraction, or as a
fraction alone. The denominator is given, or it is the best one with no more
digits than there are placeholders for it. A number too large to be counted in
whole numbers is written in the general format.

The best fraction comes from the continued fraction of the number: the last
convergent within the bound, or the largest semiconvergent beyond it if that is
nearer.
-/

namespace Worksheet.Format

open Pattern

/-- What stands before or after a fraction. -/
inductive FractionPiece where
  | literal (text : List Char)
  | currency
  deriving DecidableEq

/-- The text of a piece. -/
def FractionPiece.text (signs : NumberSigns) : FractionPiece → List Char
  | .literal text => text
  | .currency => signs.currencySymbol

/-- A fraction section, ready to write numbers. -/
structure FractionSection where
  /-- What stands before the number. -/
  leading : List FractionPiece
  /-- The placeholders of the whole part. -/
  whole : List Placeholder
  /-- The blanks between whole part and fraction. -/
  gap : List Char
  /-- The placeholders of the numerator. -/
  numerator : List Placeholder
  /-- The placeholders of the denominator. -/
  denominator : List Placeholder
  /-- The denominator, when it is given. -/
  fixed : Option Nat
  /-- What stands after the number. -/
  trailing : List FractionPiece
  deriving DecidableEq

namespace FractionSection

/-! ## Compiling a section -/

/-- Where in a section a leaf stands. -/
inductive Zone where
  | leading
  | whole
  | numerator
  | denominator
  | trailing
  deriving DecidableEq, Repr

/-- A section on the way from its leaves. -/
structure Progress where
  layout : FractionSection
  zone : Zone

/-- One more placeholder; placeholders after the fraction are left out. -/
def Progress.pushDigit (progress : Progress) (placeholder : Placeholder) : Progress :=
  let layout := progress.layout
  match progress.zone with
  | .leading | .whole => ⟨{ layout with whole := layout.whole ++ [placeholder] }, .whole⟩
  | .numerator =>
    ⟨{ layout with numerator := layout.numerator ++ [placeholder] }, .numerator⟩
  | .denominator =>
    ⟨{ layout with denominator := layout.denominator ++ [placeholder] }, .denominator⟩
  | .trailing => progress

/-- One more piece, before the number or after it. -/
def Progress.push (progress : Progress) (piece : FractionPiece) : Progress :=
  let layout := progress.layout
  if progress.zone = .leading then
    { progress with layout := { layout with leading := layout.leading ++ [piece] } }
  else ⟨{ layout with trailing := layout.trailing ++ [piece] }, .trailing⟩

/-- One more leaf. Blanks after the first placeholders make those the whole
part; a slash makes the last ones the numerator. -/
def Progress.leaf (progress : Progress) (kind : LeafKind) (text : List Char) : Progress :=
  let layout := progress.layout
  match Placeholder.ofLeaf? kind with
  | some placeholder => progress.pushDigit placeholder
  | none =>
    match kind with
    | .whitespace =>
      if progress.zone = .whole then ⟨{ layout with gap := layout.gap ++ text }, .numerator⟩
      else progress.push (.literal text)
    | .fractionSymbol =>
      if progress.zone = .trailing then progress.push (.literal text)
      else if progress.zone = .whole then
        ⟨{ layout with numerator := layout.whole, whole := [] }, .denominator⟩
      else ⟨layout, .denominator⟩
    | .fractionDenominator value => ⟨{ layout with fixed := some value }, .trailing⟩
    | .currency => progress.push .currency
    | .underscore _ => progress.push (.literal [' '])
    | other =>
      match other.literal? text with
      | some literal => progress.push (.literal literal)
      | none => progress

/-- One more node of a section. -/
def Progress.token (progress : Progress) (token : Token) : Progress :=
  match token with
  | .leaf kind text => progress.leaf kind text
  | .parent .. => progress

/-- The section some leaves make up. -/
def ofLeaves (leaves : List Token) : FractionSection :=
  (leaves.foldl Progress.token ⟨⟨[], [], [], [], [], none, []⟩, .leading⟩).layout

/-! ## The best fraction -/

/-- The last two convergents `p₀ / q₀` and `p₁ / q₁` of a continued fraction.
They start as zero over one and one over zero, and `next` moves them on by a
term. -/
structure Convergents where
  p₀ : Nat
  q₀ : Nat
  p₁ : Nat
  q₁ : Nat
  deriving DecidableEq, Repr

/-- The convergents after one more term. -/
def Convergents.next (c : Convergents) (term : Nat) : Convergents :=
  ⟨c.p₁, c.q₁, c.p₀ + term * c.p₁, c.q₀ + term * c.q₁⟩

/-- How far a fraction is from a number. -/
def fractionError (value : Float) (numerator denominator : Nat) : Float :=
  (Float.ofNat numerator / Float.ofNat denominator - value).abs

/-- The number a double is cut to, no more than one above a bound. -/
def termOf (bound : Nat) (rest : Float) : Nat :=
  if rest.isNaN then bound + 1
  else if Number.isSigned rest then 0
  else min (Number.magnitude rest).whole (bound + 1)

/-- **The last convergents of a number** with a denominator within a bound, or
those at which it is met as nearly as doubles can tell. The terms come from the
part of the number that is left (`termOf`); denominators grow with every round
but the first two, so that the rounds are fewer than the bound. -/
def expand (value : Float) (bound : Nat) : Nat → Float → Convergents → Convergents
  | 0, _, c => c
  | rounds + 1, rest, c =>
    let term := termOf bound rest
    if bound < c.q₀ + term * c.q₁ then c
    else
      let c := c.next term
      let left := rest - Number.ofInt (Number.floorInt rest)
      if left < 1e-12 || fractionError value c.p₁ c.q₁ < value * 1e-12 then c
      else expand value bound rounds (1 / left) c

/-- **The fraction nearest to a number** in `[0, 1)` with a denominator within a
bound: the last convergent that `expand` comes to, unless the semiconvergent
beyond it has a smaller `fractionError`. -/
def best (value : Float) (bound : Nat) : Nat × Nat :=
  if value ≤ 0 then (0, 1)
  else
    let bound := max bound 1
    let c := expand value bound (bound + 2) value ⟨0, 1, 1, 0⟩
    let k := (bound - c.q₀) / c.q₁
    let semi := (c.p₀ + k * c.p₁, c.q₀ + k * c.q₁)
    if fractionError value c.p₁ c.q₁ ≤ fractionError value semi.1 semi.2 then (c.p₁, c.q₁)
    else semi

/-! ## Writing a number -/

/-- The largest denominator with as many digits as there are placeholders, of
which up to nine count. -/
def maxDenominator (layout : FractionSection) : Nat :=
  10 ^ max 1 (min 9 layout.denominator.length) - 1

/-- The counting numbers a fraction may be made of. -/
def countLimit : Nat := 2 ^ 64

/-- A count, when it is below `countLimit`. -/
def count? (n : Nat) : Option Nat :=
  if n < countLimit then some n else none

/-- **The whole part, the numerator and the denominator** of a number that is
not negative, as long as they can be counted. The denominator is the one the
section gives, or `best` finds it. -/
def parts? (layout : FractionSection) (size : Float) : Option (Nat × Nat × Nat) :=
  if Float.ofNat (countLimit - 1) ≤ size then none
  else do
    let whole := (Number.magnitude size).whole
    let part := Number.fract size
    let (numerator, denominator) :=
      match layout.fixed with
      | some fixed => (Number.roundNat (part * Float.ofNat fixed), fixed)
      | none => best part layout.maxDenominator
    let (whole, numerator) ←
      if numerator = denominator then (count? (whole + 1)).map (·, 0) else some (whole, numerator)
    if layout.whole.isEmpty then
      let scaled ← count? (whole * denominator)
      let numerator ← count? (scaled + numerator)
      return (0, numerator, denominator)
    else return (whole, numerator, denominator)

/-- The blanks that bring a denominator to the width of its placeholders. -/
def denominatorPadding (layout : FractionSection) (rendered : List Char) : List Char :=
  match layout.fixed with
  | some _ => []
  | none =>
    (layout.denominator.drop rendered.length).flatMap fun placeholder =>
      placeholder.padding.map fun _ => ' '

/-- The text of a number from its parts. A fraction of zero is written only when
there is no whole part to stand for it, and a whole part of zero only when there
is no fraction. -/
def render (layout : FractionSection) (signs : NumberSigns) (negative : Bool)
    (whole numerator denominator : Nat) : List Char :=
  let sign := if negative && (0 < whole || 0 < numerator) then [signs.negativeSign] else []
  let showFraction := 0 < numerator || layout.whole.isEmpty
  let wholeText :=
    if !layout.whole.isEmpty && (0 < whole || !showFraction) then
      (Placeholder.fillRight (Text.ofNat whole) layout.whole).flatten
        ++ (if showFraction then layout.gap else [])
    else []
  let fractionText :=
    if showFraction then
      let rendered := Text.ofNat denominator
      (Placeholder.fillRight (Text.ofNat numerator) layout.numerator).flatten
        ++ '/' :: rendered ++ layout.denominatorPadding rendered
    else []
  sign ++ layout.leading.flatMap (FractionPiece.text signs) ++ wholeText ++ fractionText
    ++ layout.trailing.flatMap (FractionPiece.text signs)

/-- A number as a fraction section shows it. -/
def format (layout : FractionSection) (signs : NumberSigns) (value : Float) : List Char :=
  if value.isNaN || value.isInf then Number.plainText value
  else
    match layout.parts? value.abs with
    | some (whole, numerator, denominator) =>
      layout.render signs (value < 0) whole numerator denominator
    | none => General.format signs value

end FractionSection

end Worksheet.Format
