import Worksheet.Locale.Numbers
import Worksheet.Number.Decimal
import Worksheet.Pattern.Section

/-!
# Number sections

A number section lays the digits of a number out over placeholders before and
after a decimal point and in an exponent, between literal texts. A separator
between two integer placeholders groups digits by three; separators after the
last integer placeholder divide the number by a thousand each, and percent signs
multiply it by a hundred each.

The integer digits are laid out from the right, with any excess in the first
slot, so that none is lost whatever stands between the placeholders. The sign is
written once, before the first thing that belongs to the number.
-/

namespace Worksheet.Format

open Pattern

/-- The three runs of digits of a number. -/
inductive Zone where
  | integer
  | fraction
  | exponent
  deriving DecidableEq, Repr

/-- A piece of a number section. -/
inductive NumberItem where
  /-- A place for a digit. -/
  | digit (zone : Zone) (placeholder : Placeholder)
  | decimalPoint
  /-- The exponent symbol; a positive exponent has a sign if asked for. -/
  | exponentMark (signed : Bool)
  | percent
  | currency
  | literal (text : List Char)
  deriving DecidableEq

/-- **A number section**, ready to write numbers: what is written, in order, and
what is done to the number first. The layout of each zone is read off the items
(`placeholdersIn`). -/
structure NumberSection where
  /-- The pieces in order. -/
  items : List NumberItem
  /-- Whether integer digits are grouped. -/
  grouping : Bool
  /-- How many times the number is divided by a thousand. -/
  scale : Nat
  deriving DecidableEq

namespace NumberSection

/-- The placeholders of a zone in order. -/
def placeholdersIn (zone : Zone) (items : List NumberItem) : List Placeholder :=
  items.filterMap fun
    | .digit zone' placeholder => if zone' = zone then some placeholder else none
    | _ => none

/-- The placeholders before the decimal point. -/
def integer (layout : NumberSection) : List Placeholder :=
  placeholdersIn .integer layout.items

/-- The placeholders after the decimal point. -/
def fraction (layout : NumberSection) : List Placeholder :=
  placeholdersIn .fraction layout.items

/-- The placeholders of the exponent. -/
def exponent (layout : NumberSection) : List Placeholder :=
  placeholdersIn .exponent layout.items

/-- How many times the number is multiplied by a hundred. -/
def percent (layout : NumberSection) : Nat :=
  layout.items.count .percent

/-- Whether a piece is an exponent symbol. -/
def isExponentMark : NumberItem → Bool
  | .exponentMark _ => true
  | _ => false

/-- Whether the number is written with an exponent. -/
def isScientific (layout : NumberSection) : Bool :=
  layout.items.any isExponentMark

/-! ## Compiling a section -/

/-- A section on the way from its leaves: the layout so far, the zone that
further digits belong to, and the separators that are not yet known to group or
to scale. -/
structure Progress where
  layout : NumberSection
  zone : Zone
  pending : Nat

/-- One more piece. -/
def Progress.push (progress : Progress) (item : NumberItem) : Progress :=
  { progress with
    layout := { progress.layout with items := progress.layout.items ++ [item] } }

/-- The pending separators counted as scaling. -/
def Progress.settle (progress : Progress) : Progress :=
  { progress with
    layout := { progress.layout with scale := progress.layout.scale + progress.pending }
    pending := 0 }

/-- One more placeholder. Between integer placeholders, pending separators ask
for grouping; those still pending behind the last one scale
(`Progress.settle`). -/
def Progress.pushDigit (progress : Progress) (placeholder : Placeholder) : Progress :=
  let grouped :=
    if progress.zone = .integer then
      { progress with
        layout := { progress.layout with
          grouping := progress.layout.grouping ||
            (0 < progress.pending && !progress.layout.integer.isEmpty) }
        pending := 0 }
    else progress
  grouped.push (.digit progress.zone placeholder)

/-- One more leaf. -/
def Progress.leaf (progress : Progress) (kind : LeafKind) (text : List Char) : Progress :=
  match Placeholder.ofLeaf? kind with
  | some placeholder => progress.pushDigit placeholder
  | none =>
    match kind with
    | .decimalPoint =>
      if progress.zone = .integer then
        { progress.settle with zone := .fraction }.push .decimalPoint
      else progress.push (.literal text)
    | .groupSeparator =>
      if progress.zone = .exponent then progress.push (.literal text)
      else { progress with pending := progress.pending + 1 }
    | .exponent =>
      { progress.settle with zone := .exponent }.push
        (.exponentMark (text.getLast? == some '+'))
    | .percent => progress.push .percent
    | .currency => progress.push .currency
    | .underscore _ => progress.push (.literal [' '])
    | .star _ => progress
    | other =>
      match other.literal? text with
      | some literal => progress.push (.literal literal)
      | none => progress

/-- One more node of a section. -/
def Progress.token (progress : Progress) (token : Token) : Progress :=
  match token with
  | .leaf kind text => progress.leaf kind text
  | .parent .. => progress

/-- The section some leaves make up. -/
def ofLeaves (leaves : List Token) : NumberSection :=
  (leaves.foldl Progress.token ⟨⟨[], false, 0⟩, .integer, 0⟩).settle.layout

/-! ## Writing a number -/

/-- A positive number rounded to a number of places. -/
def roundedTo (places : Nat) (x : Float) : Float :=
  if x.isNaN || x.isInf then x
  else
    let b := Number.magnitude x
    (Number.Decimal.mk (Number.roundHalfEven (b.num * 10 ^ places) b.den) (-places)).toFloat

/-- A number of words of 32 bits with sign. -/
def exponentOf (x : Float) : Int :=
  max (-(2 ^ 31)) (min (2 ^ 31 - 1) (Number.floorInt x))

/-- The mantissa and the exponent of a number that is not negative. The mantissa
has as many integer digits as there are integer placeholders, or, if there are
several and the first is optional, at most that many and an exponent that is a
multiple of their number. A mantissa that rounds up to one digit more is taken
down a step. -/
def splitExponent (layout : NumberSection) (value : Float) : Float × Int :=
  if value == 0 then (0, 0)
  else
    let width : Int := max layout.integer.length 1
    let engineering := 1 < width && layout.integer.head? == some .optional
    let leading := exponentOf value.log10
    let exponent := if engineering then leading / width * width else leading - (width - 1)
    let step := if engineering then width else 1
    let mantissa := value / Number.powInt 10 exponent
    if Number.powInt 10 width ≤ roundedTo layout.fraction.length mantissa then
      (value / Number.powInt 10 (exponent + step), exponent + step)
    else (mantissa, exponent)

/-- Zeros at the end of a fraction, read from the right: an optional placeholder
shows nothing for one and a spacing one a space, up to the first digit that has
to be shown. -/
def blankZeros : List (Option Char × Placeholder) → List (Option Char)
  | [] => []
  | (slot, placeholder) :: rest =>
    if slot = some '0' then
      match placeholder with
      | .zero => slot :: rest.map Prod.fst
      | .optional => none :: blankZeros rest
      | .space => some ' ' :: blankZeros rest
    else slot :: rest.map Prod.fst

/-- The slots of the fraction. -/
def fractionSlots (placeholders : List Placeholder) (digits : List Char) : List (List Char) :=
  let padded := (digits.map some ++ List.replicate (placeholders.length - digits.length) none).take
    placeholders.length
  ((blankZeros (padded.zip placeholders).reverse).reverse).map Option.toList

/-- Characters with a separator after each digit that a multiple of three
digits, but not none, follow. Also counts the digits that still follow, which
the next slot goes on from. -/
def grouped (separator : Option Char) : Nat → List Char → List Char × Nat
  | remaining, [] => ([], remaining)
  | remaining, c :: rest =>
    if c.isDigit then
      let left := remaining - 1
      let mark :=
        match separator with
        | some mark => if 0 < left ∧ left % 3 = 0 then [mark] else []
        | none => []
      let (more, final) := grouped separator left rest
      (c :: mark ++ more, final)
    else
      let (more, final) := grouped separator remaining rest
      (c :: more, final)

/-- What is still to be written while the pieces of a section are gone through. -/
structure Pending where
  /-- The sign has to be written before the number begins. -/
  sign : Bool
  /-- Integer digits that are not written yet. -/
  digits : Nat
  /-- The slots of the integer placeholders. -/
  integer : List (List Char)
  /-- The slots of the fraction placeholders. -/
  fraction : List (List Char)
  /-- The slots of the exponent placeholders. -/
  exponent : List (List Char)

/-- Whether the number begins with a piece at the latest. -/
def beginsNumber : NumberItem → Bool
  | .digit .integer _ | .digit .fraction _ | .decimalPoint => true
  | _ => false

/-- **The text of the pieces of a section**, with what is `Pending` handed from
one to the next. `whole` is written before a decimal point that has no integer
placeholders. -/
def write (signs : NumberSigns) (grouping : Bool) (whole : Option (List Char)) (exponent : Int) :
    List NumberItem → Pending → List Char
  | [], _ => []
  | item :: items, pending =>
    let signed := pending.sign && beginsNumber item
    let sign := if signed then [signs.negativeSign] else []
    let pending := { pending with sign := pending.sign && !signed }
    sign ++
      match item with
      | .digit .integer _ =>
        let (text, left) := grouped (if grouping then some signs.groupSeparator else none)
          pending.digits (pending.integer.headD [])
        text ++ write signs grouping whole exponent items
          { pending with digits := left, integer := pending.integer.tail }
      | .digit .fraction _ =>
        pending.fraction.headD [] ++ write signs grouping whole exponent items
          { pending with fraction := pending.fraction.tail }
      | .digit .exponent _ =>
        pending.exponent.headD [] ++ write signs grouping whole exponent items
          { pending with exponent := pending.exponent.tail }
      | .decimalPoint =>
        whole.getD [] ++ signs.decimalPoint :: write signs grouping whole exponent items pending
      | .exponentMark explicit =>
        signs.exponentSymbol
          ++ (if exponent < 0 then [signs.negativeSign]
              else if explicit then [signs.positiveSign] else [])
          ++ write signs grouping whole exponent items pending
      | .percent => signs.percentSymbol :: write signs grouping whole exponent items pending
      | .currency =>
        signs.currencySymbol ++ write signs grouping whole exponent items pending
      | .literal text => text ++ write signs grouping whole exponent items pending

/-- A number without its sign as a section shows it: percent signs and scaling
taken into account. -/
def scaled (layout : NumberSection) (value : Float) : Float :=
  value.abs * Number.powInt 100 layout.percent / Number.powInt 1000 layout.scale

/-- **A number as a section shows it**: scaled (`scaled`), split into mantissa
and exponent if the section has one (`splitExponent`), rounded once, laid out
over the placeholders and written. -/
def format (layout : NumberSection) (signs : NumberSigns) (value : Float) : List Char :=
  if value.isNaN || value.isInf then Number.plainText value
  else
    let size := layout.scaled value
    let (mantissa, exponent) := if layout.isScientific then layout.splitExponent size else (size, 0)
    let rendered := Number.fixedText layout.fraction.length mantissa
    let whole := (rendered.takeWhile (· != '.')).dropWhile (· == '0')
    let integer := Placeholder.fillRight whole layout.integer
    write signs layout.grouping (if layout.integer.isEmpty then some whole else none) exponent
      layout.items
      { sign := value < 0
        digits := (integer.flatten.filter Char.isDigit).length
        integer
        fraction := fractionSlots layout.fraction ((rendered.dropWhile (· != '.')).drop 1)
        exponent := Placeholder.fillRight (Text.ofNat exponent.natAbs) layout.exponent }

end NumberSection

end Worksheet.Format
