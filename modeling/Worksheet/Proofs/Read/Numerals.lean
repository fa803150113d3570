import Worksheet.Proofs.Number.Rounded
import Worksheet.Proofs.Read.Digits
import Worksheet.Proofs.Text.Case

/-!
# Numerals

The numbers in formulas are read by two sections: digits with a point and an
exponent, and digits with a point only. Neither says what a number is, since
places and points may find nothing, the last place of a run takes all digits,
and what one section leaves is read by the other. What they read together are
numerals (`Numeral`): digits around a point that may be missing, of which there
is one at least, and perhaps an exponent with a sign or none.

A numeral is read when a character follows that can end one, or nothing does,
and then it is read as the nearest double (`readFront?_of_numeral`); whatever is
read is such a numeral (`exists_numeral_of_readFront?`). No numeral that is
longer begins there (`Numeral.longest`): only a sign could go on behind it, and
a sign needs the letter of an exponent before it.

Both directions go through the parts a text has anyway. Every text begins with
digits around a point, as far as they go (`exists_mantissa`), and behind them
there is the letter of an exponent, with a sign and digits as far as they go
(`exists_exponent`), or there is none.
-/

namespace Worksheet.Read

open Pattern Format Number

/-! ## Digits around a point

The parts are cut from the text before anything is known of a number, and each
as far as it goes. Whether they make up a numeral is asked afterwards. -/

/-- **Digits around a point**, of which each part may be missing. It is as much
of a numeral as every text begins with. -/
structure Mantissa where
  /-- The digits before the point. -/
  whole : List Char
  /-- The digits after the point, if there is one. -/
  fraction? : Option (List Char)
  /-- There are only digits before the point. -/
  isDigit_whole : ∀ c ∈ whole, c.isDigit = true
  /-- There are only digits after it. -/
  isDigit_fraction : ∀ fraction ∈ fraction?, ∀ c ∈ fraction, c.isDigit = true

namespace Mantissa

variable {m : Mantissa} {rest : List Char}

def fraction (m : Mantissa) : List Char :=
  m.fraction?.getD []

def digits (m : Mantissa) : List Char :=
  m.whole ++ m.fraction

/-- How it is written. -/
def text (m : Mantissa) : List Char :=
  m.whole ++ (m.fraction?.map ('.' :: ·)).getD []

/-- What is collected from it. -/
def collected (m : Mantissa) : Collected :=
  { Collected.start .expression with
    integer := m.whole
    fraction := m.fraction
    hasPoint := m.fraction?.isSome }

/-- **Digits go no further**: there are no more of them behind, and no point
unless there was one. -/
structure Ends (m : Mantissa) (rest : List Char) : Prop where
  digit : Text.Stops Char.isDigit rest
  point : m.fraction? = none → rest.head? ≠ some '.'

theorem isDigit_or_eq_of_mem {c : Char} (h : c ∈ m.text) : c.isDigit = true ∨ c = '.' := by
  obtain ⟨whole, fraction?, hwhole, hfraction⟩ := m
  rcases List.mem_append.1 h with h | h
  · exact .inl (hwhole c h)
  · cases fraction? with
    | none => exact absurd h List.not_mem_nil
    | some fraction =>
      rcases List.mem_cons.1 h with rfl | h
      · exact .inr rfl
      · exact .inl (hfraction fraction rfl c h)

end Mantissa

/-- **Every text begins with digits around a point**, though all of them may be
missing. What is taken is as much as there is, with or without a point. -/
theorem exists_mantissa (text : List Char) :
    ∃ (m : Mantissa) (rest : List Char), text = m.text ++ rest ∧ m.Ends rest := by
  have hdigits : ∀ text : List Char, ∀ c ∈ text.takeWhile Char.isDigit, c.isDigit = true :=
    fun text c hc => List.mem_takeWhile_imp hc
  have hwhole : text = text.takeWhile Char.isDigit ++ text.dropWhile Char.isDigit :=
    List.takeWhile_append_dropWhile.symm
  have hstops := Text.stops_dropWhile Char.isDigit text
  by_cases hpoint : (text.dropWhile Char.isDigit).head? = some '.'
  · obtain ⟨after, hafter⟩ := List.head?_eq_some_iff.1 hpoint
    refine ⟨⟨text.takeWhile Char.isDigit, some (after.takeWhile Char.isDigit), hdigits text, ?_⟩,
      after.dropWhile Char.isDigit, ?_, Text.stops_dropWhile _ _, nofun⟩
    · rintro _ ⟨⟩
      exact hdigits after
    · show text = text.takeWhile Char.isDigit ++ '.' :: after.takeWhile Char.isDigit ++ _
      rw [List.append_assoc, List.cons_append, List.takeWhile_append_dropWhile, ← hafter,
        ← hwhole]
  · refine ⟨⟨text.takeWhile Char.isDigit, none, hdigits text, nofun⟩, text.dropWhile Char.isDigit,
      ?_, hstops, fun _ => hpoint⟩
    show text = text.takeWhile Char.isDigit ++ [] ++ _
    rw [List.append_nil, ← hwhole]

/-! ## The steps for it

The signs are the standard ones, without grouping, and in formulas a step takes
no sign in front. So a step only has to be shown what the text begins with. -/

theorem takeSign_expression (signs : NumberSigns) (text : List Char) :
    (Collected.start .expression).takeSign signs text = (Collected.start .expression, text) := by
  cases text <;> rfl

/-- **The last place of a zone** takes all digits. -/
theorem takePlace_append (placeholder : Placeholder) (zone : Zone) (collected : Collected)
    {digits rest : List Char} (h : ∀ c ∈ digits, c.isDigit = true)
    (hrest : Text.Stops Char.isDigit rest) :
    takePlace .standard false placeholder zone true collected (digits ++ rest)
      = (collected.addDigits zone digits, rest) := by
  unfold takePlace
  rw [if_pos rfl, Bool.false_and, if_neg Bool.false_ne_true]
  dsimp only
  rw [takeDigits_append _ h hrest]

theorem take?_integer {whole rest : List Char} (h : ∀ c ∈ whole, c.isDigit = true)
    (hrest : Text.Stops Char.isDigit rest) :
    (Step.digit .optional .integer true).take? .standard false (.start .expression)
        (whole ++ rest)
      = some ({ Collected.start .expression with integer := whole }, rest) := by
  rw [Step.take?, if_neg (by decide), if_pos ⟨rfl, rfl⟩, takeSign_expression]
  exact congrArg some (takePlace_append _ _ _ h hrest)

theorem take?_noPoint (collected : Collected) {rest : List Char} (h : rest.head? ≠ some '.') :
    Step.decimalPoint.take? .standard false collected rest = some (collected, rest) := by
  cases rest with
  | nil => rfl
  | cons c rest => exact if_neg fun hc => h (congrArg some hc)

theorem take?_point (collected : Collected) (rest : List Char) :
    Step.decimalPoint.take? .standard false collected ('.' :: rest)
      = some ({ collected with hasPoint := true }, rest) := by
  rw [Step.take?]
  exact if_pos rfl

theorem take?_fraction (whole : List Char) {fraction rest : List Char}
    (h : ∀ c ∈ fraction, c.isDigit = true) (hrest : Text.Stops Char.isDigit rest) :
    (Step.digit .optional .fraction true).take? .standard false
        { Collected.start .expression with integer := whole, hasPoint := true }
        (fraction ++ rest)
      = some ({ Collected.start .expression with
          integer := whole, fraction := fraction, hasPoint := true }, rest) := by
  rw [Step.take?, if_neg (fun hpoint => hpoint.2 rfl), if_neg (by simp)]
  exact congrArg some (takePlace_append _ _ _ h hrest)

/-- The steps for digits with a point. -/
def plainSteps : List Step :=
  [.digit .optional .integer true, .decimalPoint, .digit .optional .fraction true]

/-- **Digits around a point** are taken by their steps, with or without a
point. -/
theorem takeSteps?_plainSteps {m : Mantissa} {rest : List Char} (h : m.Ends rest) :
    takeSteps? .standard false plainSteps (.start .expression) (m.text ++ rest)
      = some (m.collected, rest) := by
  obtain ⟨whole, fraction?, hwhole, hfraction⟩ := m
  unfold plainSteps
  cases fraction? with
  | none =>
    show takeSteps? _ _ _ _ (whole ++ [] ++ rest) = _
    rw [List.append_nil, takeSteps?, take?_integer hwhole h.digit]
    dsimp only
    rw [takeSteps?, take?_noPoint _ (h.point rfl)]
    rfl
  | some fraction =>
    show takeSteps? _ _ _ _ (whole ++ '.' :: fraction ++ rest) = _
    rw [List.append_assoc, List.cons_append, takeSteps?,
      take?_integer hwhole (Text.stops_cons.2 (by decide))]
    dsimp only
    rw [takeSteps?, take?_point]
    dsimp only
    rw [takeSteps?, take?_fraction whole (hfraction fraction rfl) h.digit]
    rfl

/-! ## Exponents

An exponent may be cut off behind its letter or its sign. Then its digits are
missing and the section has no value, but the steps have taken what is there. -/

/-- **An exponent**: its letter, a sign or none, and digits, which may be
missing still. -/
structure Exponent where
  /-- Its letter, in either case. -/
  letter : Char
  /-- Its sign, if it has one. -/
  sign? : Option Char
  /-- Its digits. -/
  digits : List Char
  /-- The letter is the one of exponents. -/
  isLetter : letter = 'E' ∨ letter = 'e'
  /-- The sign is one. -/
  isSign : ∀ sign ∈ sign?, sign = '+' ∨ sign = '-'
  /-- The digits are. -/
  isDigit : ∀ c ∈ digits, c.isDigit = true

namespace Exponent

variable {e : Exponent} {rest : List Char}

/-- How it is written: the letter, the sign if there is one, and the digits. -/
def text (e : Exponent) : List Char :=
  e.letter :: (e.sign?.toList ++ e.digits)

/-- The power of ten it stands for. -/
def value (e : Exponent) : ℤ :=
  if e.sign? = some '-' then -(Text.digitsValue e.digits : ℤ) else Text.digitsValue e.digits

/-- What is collected with it. -/
def collect (e : Exponent) (collected : Collected) : Collected :=
  { collected with
    hasExponent := true
    exponentNegative := collected.exponentNegative || e.sign? = some '-'
    exponent := collected.exponent ++ e.digits }

/-- **An exponent goes no further**: there are no more digits behind it, and no
sign right behind its letter. -/
structure Ends (e : Exponent) (rest : List Char) : Prop where
  digit : Text.Stops Char.isDigit rest
  sign : e.sign? = none → ∀ c ∈ (e.digits ++ rest).head?, c ≠ '+' ∧ c ≠ '-'

end Exponent

/-- The letter of an exponent is an E in either case. -/
theorem dropExponent?_eq_some {text rest : List Char}
    (h : NumberSigns.standard.dropExponent? text = some rest) :
    ∃ letter, (letter = 'E' ∨ letter = 'e') ∧ text = letter :: rest := by
  cases text with
  | nil => cases h
  | cons c text =>
    by_cases hcase : 'E'.toUpper = c.toUpper
    · obtain rfl : text = rest := Option.some.inj ((if_pos hcase).symm.trans h)
      have hletter : Text.bothCases 'E' = ['E', 'e'] := by decide
      have hmem := Text.mem_bothCases hcase
      rw [hletter, List.mem_pair] at hmem
      exact ⟨c, hmem, rfl⟩
    · exact absurd ((if_neg hcase).symm.trans h) nofun

/-- **Behind digits there is an exponent or none**, though its digits may be
missing. As with `exists_mantissa`, it goes as far as it can. -/
theorem exists_exponent (text : List Char) :
    NumberSigns.standard.dropExponent? text = none ∨
      ∃ (e : Exponent) (rest : List Char), text = e.text ++ rest ∧ e.Ends rest := by
  cases hdrop : NumberSigns.standard.dropExponent? text with
  | none => exact .inl rfl
  | some after =>
    obtain ⟨letter, hletter, rfl⟩ := dropExponent?_eq_some hdrop
    have hdigits : ∀ text : List Char, ∀ c ∈ text.takeWhile Char.isDigit, c.isDigit = true :=
      fun text c hc => List.mem_takeWhile_imp hc
    right
    by_cases hsign : ∃ sign ∈ after.head?, sign = '+' ∨ sign = '-'
    · obtain ⟨sign, hhead, hsign⟩ := hsign
      obtain ⟨others, rfl⟩ := List.head?_eq_some_iff.1 hhead
      refine ⟨⟨letter, some sign, others.takeWhile Char.isDigit, hletter, ?_, hdigits others⟩,
        others.dropWhile Char.isDigit, ?_, Text.stops_dropWhile _ _, nofun⟩
      · rintro _ ⟨⟩
        exact hsign
      · show letter :: sign :: others = letter :: sign :: (others.takeWhile Char.isDigit ++ _)
        rw [List.takeWhile_append_dropWhile]
    · refine ⟨⟨letter, none, after.takeWhile Char.isDigit, hletter, nofun, hdigits after⟩,
        after.dropWhile Char.isDigit, ?_, Text.stops_dropWhile _ _, fun _ c hc => ?_⟩
      · show letter :: after = letter :: (after.takeWhile Char.isDigit ++ _)
        rw [List.takeWhile_append_dropWhile]
      · rw [List.takeWhile_append_dropWhile] at hc
        exact not_or.1 fun h => hsign ⟨c, hc, h⟩

/-- The steps for an exponent. -/
def exponentTail : List Step :=
  [.exponent, .digit .optional .exponent true]

theorem dropExponent?_cons {letter : Char} (h : letter = 'E' ∨ letter = 'e') (rest : List Char) :
    NumberSigns.standard.dropExponent? (letter :: rest) = some rest := by
  rcases h with rfl | rfl <;> rfl

/-- The step of the letter takes the sign too, so that the digits are left for
the next step. -/
theorem take?_letter {e : Exponent} {rest : List Char} (h : e.Ends rest) (collected : Collected) :
    Step.exponent.take? .standard false collected (e.text ++ rest)
      = some ({ collected with
          hasExponent := true
          exponentNegative := collected.exponentNegative || e.sign? = some '-' },
        e.digits ++ rest) := by
  obtain ⟨letter, sign?, digits, hletter, hsign, hdigits⟩ := e
  cases sign? with
  | some sign =>
    have hdrop := dropExponent?_cons hletter (sign :: digits ++ rest)
    show Step.exponent.take? _ _ _ (letter :: (sign :: digits ++ rest)) = _
    rw [Step.take?, hdrop]
    rcases hsign sign rfl with rfl | rfl
    · simp [NumberSigns.standard]
    · simp [NumberSigns.standard]
  | none =>
    have hdrop := dropExponent?_cons hletter (digits ++ rest)
    have hnone := h.sign rfl
    show Step.exponent.take? _ _ _ (letter :: (digits ++ rest)) = _
    rw [Step.take?, hdrop]
    dsimp only at hnone ⊢
    generalize digits ++ rest = text at hnone ⊢
    cases text with
    | nil => simp
    | cons c others =>
      have hnegative : c ≠ NumberSigns.standard.negativeSign := (hnone c rfl).2
      have hpositive : c ≠ NumberSigns.standard.positiveSign := (hnone c rfl).1
      simp [hnegative, hpositive]

/-- **An exponent** is taken by its steps, behind whatever was collected. -/
theorem takeSteps?_exponentTail {e : Exponent} {rest : List Char} (h : e.Ends rest)
    (collected : Collected) :
    takeSteps? .standard false exponentTail collected (e.text ++ rest)
      = some (e.collect collected, rest) := by
  rw [exponentTail, takeSteps?, take?_letter h]
  dsimp only
  rw [takeSteps?, Step.take?, if_neg (by simp), if_neg (by simp),
    takePlace_append _ _ _ e.isDigit h.digit]
  rfl

/-! ## Numerals

`EndsNumeral` asks for one character only, whereas `Longest` speaks of all
texts in front of it. That the first implies the second is `Numeral.longest`. -/

/-- **A numeral**: digits around a point, of which there is one at least, and
perhaps an exponent, which has digits too. Neither requirement is one of
`Mantissa` or `Exponent`. -/
structure Numeral where
  /-- The digits around the point. -/
  mantissa : Mantissa
  /-- The exponent, if there is one. -/
  exponent? : Option Exponent
  /-- There is a digit before or after the point. -/
  digits_ne_nil : mantissa.digits ≠ []
  /-- There is a digit in the exponent. -/
  exponent_ne_nil : ∀ e ∈ exponent?, e.digits ≠ []

namespace Numeral

variable {n : Numeral} {rest : List Char}

/-- How it is written. -/
def text (n : Numeral) : List Char :=
  n.mantissa.text ++ (n.exponent?.map Exponent.text).getD []

/-- The digits of a numeral and a power of ten, which the digits behind the
point lower. -/
def decimal (n : Numeral) : Decimal :=
  ⟨Text.digitsValue n.mantissa.digits,
    (n.exponent?.map Exponent.value).getD 0 - n.mantissa.fraction.length⟩

/-- **The number it stands for.** -/
def value (n : Numeral) : ℚ :=
  n.decimal.toRat

/-- What is collected from it. -/
def collected (n : Numeral) : Collected :=
  (n.exponent?.map fun e => e.collect n.mantissa.collected).getD n.mantissa.collected

/-- **No longer numeral** begins where it does. -/
def Longest (n : Numeral) (rest : List Char) : Prop :=
  ∀ other : Numeral, other.text <+: n.text ++ rest → other.text.length ≤ n.text.length

end Numeral

/-- **A numeral can end** where the text does, or where there is a character
that ends numbers. Digits, points and the letters of exponents are none of
these. -/
def EndsNumeral (rest : List Char) : Prop :=
  rest.head?.all endsNumber = true

theorem endsNumber_of_isDigit {c : Char} (h : c.isDigit = true) : endsNumber c = false := by
  obtain ⟨d, hd, rfl⟩ := Text.exists_digitChar h
  interval_cases d <;> rfl

theorem endsNumber_of_letter {c : Char} (h : c = 'E' ∨ c = 'e') : endsNumber c = false := by
  rcases h with rfl | rfl <;> rfl

namespace EndsNumeral

variable {rest : List Char}

theorem of_mem (h : EndsNumeral rest) {c : Char} (hc : c ∈ rest.head?) : endsNumber c = true := by
  obtain ⟨others, rfl⟩ := List.head?_eq_some_iff.1 hc
  exact h

theorem stops (h : EndsNumeral rest) : Text.Stops Char.isDigit rest := by
  cases rest with
  | nil => rfl
  | cons c others =>
    refine Text.stops_cons.2 (Bool.eq_false_iff.2 fun hdigit => ?_)
    exact absurd (h.of_mem rfl) (by rw [endsNumber_of_isDigit hdigit]; decide)

theorem head?_ne_point (h : EndsNumeral rest) : rest.head? ≠ some '.' := fun hpoint =>
  absurd (h.of_mem hpoint) (by decide)

theorem dropExponent?_eq_none (h : EndsNumeral rest) :
    NumberSigns.standard.dropExponent? rest = none := by
  refine Option.eq_none_iff_forall_ne_some.2 fun others hothers => ?_
  obtain ⟨letter, hletter, rfl⟩ := dropExponent?_eq_some hothers
  exact absurd (h.of_mem rfl) (by rw [endsNumber_of_letter hletter]; decide)

end EndsNumeral

/-! ## Reading them

From a text to its numeral, the parts are found first and then required to have
digits; from a numeral to its reading, the steps are followed. Both directions
go through the same lemmas on sections. -/

/-- The section for digits with a point. -/
def plainCandidate : NumberCandidate :=
  ⟨plainSteps, false, 0⟩

/-- The section for digits with a point and an exponent. -/
def exponentCandidate : NumberCandidate :=
  ⟨plainSteps ++ exponentTail, false, 0⟩

/-- **The sections that read the numbers in formulas**: with an exponent first,
so that one is not left behind. -/
def numeralReader : NumberReader :=
  ⟨[exponentCandidate, plainCandidate]⟩

/-- What a section reads from some text it collects from: the value of what is
collected, if a number can end before the rest. -/
def valueBefore? (collected : Collected) (rest : List Char) : Option (Float × List Char) :=
  if NumberCandidate.isComplete .expression rest then (collected.value? 0).map (·, rest) else none

section Sections

variable {m : Mantissa} {text rest : List Char}

/-- **The section without an exponent** reads the digits, if a number can end
behind them. -/
theorem read?_plainCandidate (h : m.Ends rest) :
    plainCandidate.read? .standard .expression (m.text ++ rest)
      = valueBefore? m.collected rest := by
  unfold NumberCandidate.read? plainCandidate
  rw [takeSign_expression]
  dsimp only
  rw [takeSteps?_plainSteps h]
  rfl

/-- The section with an exponent reads nothing when there is none. It is no
matter of the digits: the step of the letter fails. -/
theorem read?_exponentCandidate_eq_none (h : m.Ends rest)
    (hexponent : NumberSigns.standard.dropExponent? rest = none) :
    exponentCandidate.read? .standard .expression (m.text ++ rest) = none := by
  unfold NumberCandidate.read? exponentCandidate
  rw [takeSign_expression]
  dsimp only
  rw [takeSteps?_append_of_eq_some _ (takeSteps?_plainSteps h), exponentTail, takeSteps?,
    Step.take?, hexponent]

/-- **The section with an exponent** reads the digits and the exponent, if a
number can end behind them. -/
theorem read?_exponentCandidate {e : Exponent} (h : m.Ends (e.text ++ rest)) (he : e.Ends rest) :
    exponentCandidate.read? .standard .expression (m.text ++ (e.text ++ rest))
      = valueBefore? (e.collect m.collected) rest := by
  unfold NumberCandidate.read? exponentCandidate
  rw [takeSign_expression]
  dsimp only
  rw [takeSteps?_append_of_eq_some _ (takeSteps?_plainSteps h), takeSteps?_exponentTail he]
  rfl

end Sections

/-- What is collected without a sign and percent signs, and has its digits, is
read as them, by `ofDigits`. -/
theorem value?_of_digits (collected : Collected) (hsign : collected.negative = false)
    (hpercent : collected.percent = 0) (hdigits : collected.integer ++ collected.fraction ≠ [])
    (hexponent : collected.hasExponent = true → collected.exponent ≠ []) :
    collected.value? 0 = some (ofDigits collected.integer collected.fraction
      (if collected.hasExponent then collected.exponentValue else 0)) := by
  have hmantissa : ¬(collected.integer.isEmpty && collected.fraction.isEmpty) = true := by
    simpa using hdigits
  have hsome : ¬(collected.hasExponent && collected.exponent.isEmpty) = true := by
    simpa using hexponent
  rw [Collected.value?, if_neg hmantissa, if_neg hsome]
  dsimp only
  rw [hsign, if_neg Bool.false_ne_true, hpercent, Nat.cast_zero, powInt_zero, powInt_zero,
    (isSize_ofDigits _ _ _).div_one_mul_one]

theorem digits_of_value? {collected : Collected} {v : Float} (h : collected.value? 0 = some v) :
    collected.integer ++ collected.fraction ≠ [] ∧
      (collected.hasExponent = true → collected.exponent ≠ []) := by
  rw [Collected.value?] at h
  split at h
  · cases h
  · split at h
    · cases h
    · rename_i hmantissa hexponent
      exact ⟨by simpa using hmantissa, by simpa using hexponent⟩

/-- **A numeral is collected** as its digits and a power of ten. -/
theorem Numeral.value?_collected (n : Numeral) :
    n.collected.value? 0 = some n.decimal.toFloat := by
  obtain ⟨m, exponent?, hdigits, hexponent⟩ := n
  cases exponent? with
  | none => exact value?_of_digits m.collected rfl rfl hdigits nofun
  | some e =>
    have hvalue := value?_of_digits (e.collect m.collected) rfl rfl hdigits
      fun _ => hexponent e rfl
    have hexponentValue : (e.collect m.collected).exponentValue = e.value := by
      unfold Collected.exponentValue Exponent.value Exponent.collect Mantissa.collected
      simp [Collected.start]
    rw [if_pos (by rfl), hexponentValue] at hvalue
    exact hvalue

/-- Something is read from what is collected if a number can end there, and it
has a value. -/
theorem valueBefore?_eq_some {collected : Collected} {rest rest' : List Char} {v : Float}
    (h : valueBefore? collected rest' = some (v, rest)) :
    rest' = rest ∧ EndsNumeral rest ∧ collected.value? 0 = some v := by
  unfold valueBefore? at h
  split at h
  · rename_i hend
    obtain ⟨v', hv, heq⟩ := Option.map_eq_some_iff.1 h
    obtain ⟨rfl, rfl⟩ := Prod.mk.inj heq
    exact ⟨rfl, hend, hv⟩
  · cases h

section Reading

variable {n : Numeral} {input rest : List Char} {v : Float}

/-- **A numeral is read** where it can end. With an exponent the first section
reads it, and without one the second, as the first finds no letter. -/
theorem readFront?_of_numeral (n : Numeral) (h : EndsNumeral rest) :
    numeralReader.readFront? .standard .expression (n.text ++ rest)
      = some (n.decimal.toFloat, rest) := by
  have hvalue := n.value?_collected
  have hbefore : valueBefore? n.collected rest = some (n.decimal.toFloat, rest) := by
    rw [valueBefore?, NumberCandidate.isComplete, if_pos (by exact h), hvalue, Option.map_some]
  obtain ⟨m, exponent?, hdigits, hexponent⟩ := n
  cases exponent? with
  | none =>
    -- without an exponent the first candidate fails and the second reads the
    -- digits
    have hends : m.Ends rest := ⟨h.stops, fun _ => h.head?_ne_point⟩
    show numeralReader.readFront? _ _ (m.text ++ [] ++ rest) = _
    rw [List.append_nil, NumberReader.readFront?, numeralReader, List.findSome?_cons,
      read?_exponentCandidate_eq_none hends h.dropExponent?_eq_none, List.findSome?_cons,
      read?_plainCandidate hends]
    dsimp only
    rw [show valueBefore? m.collected rest = _ from hbefore]
  | some e =>
    have hends : m.Ends (e.text ++ rest) := by
      refine ⟨Text.stops_cons.2 ?_, fun _ hpoint => ?_⟩
      · rcases e.isLetter with hletter | hletter <;> rw [hletter] <;> rfl
      · have hletter := Option.some.inj hpoint
        rcases e.isLetter with heq | heq <;> rw [heq] at hletter <;> cases hletter
    -- the letter of the exponent ends the mantissa, and what ends the numeral
    -- ends the exponent
    have hexponentEnds : e.Ends rest := by
      refine ⟨h.stops, fun _ c hc => ?_⟩
      obtain ⟨digit, others, heq⟩ := List.exists_cons_of_ne_nil (hexponent e rfl)
      rw [heq] at hc
      obtain rfl : digit = c := Option.some.inj hc
      have hdigit := e.isDigit digit (by rw [heq]; exact List.mem_cons_self)
      constructor <;> rintro rfl <;> cases hdigit
    show numeralReader.readFront? _ _ (m.text ++ e.text ++ rest) = _
    rw [List.append_assoc, NumberReader.readFront?, numeralReader, List.findSome?_cons,
      read?_exponentCandidate hends hexponentEnds]
    rw [show valueBefore? (e.collect m.collected) rest = _ from hbefore]

/-- **Whatever is read is a numeral** that can end where the rest begins. The
text is split into the parts that are there anyway, and to have a value is to
have the digits of a numeral. -/
theorem exists_numeral_of_readFront?
    (h : numeralReader.readFront? .standard .expression input = some (v, rest)) :
    ∃ n : Numeral, input = n.text ++ rest ∧ EndsNumeral rest ∧ v = n.decimal.toFloat := by
  obtain ⟨m, after, rfl, hm⟩ := exists_mantissa input
  obtain ⟨candidate, hcandidate, hread⟩ := List.exists_of_findSome?_eq_some h
  rcases List.mem_pair.1 hcandidate with rfl | rfl
  · rcases exists_exponent after with hnone | ⟨e, after, rfl, he⟩
    · rw [read?_exponentCandidate_eq_none hm hnone] at hread
      cases hread
    · rw [read?_exponentCandidate hm he] at hread
      obtain ⟨rfl, hend, hvalue⟩ := valueBefore?_eq_some hread
      obtain ⟨hdigits, hexponent⟩ := digits_of_value? hvalue
      let n : Numeral := ⟨m, some e, hdigits, by rintro _ ⟨⟩; exact hexponent rfl⟩
      refine ⟨n, (List.append_assoc _ _ _).symm, hend, ?_⟩
      exact Option.some.inj (hvalue.symm.trans n.value?_collected)
  · rw [read?_plainCandidate hm] at hread
    obtain ⟨rfl, hend, hvalue⟩ := valueBefore?_eq_some hread
    obtain ⟨hdigits, -⟩ := digits_of_value? hvalue
    let n : Numeral := ⟨m, none, hdigits, nofun⟩
    refine ⟨n, ?_, hend, Option.some.inj (hvalue.symm.trans n.value?_collected)⟩
    show _ = m.text ++ [] ++ _
    rw [List.append_nil]

end Reading

/-! ## No longer numeral

Of the characters that end numbers only signs occur in a numeral, and there
just behind the letter of its exponent. A longer numeral would have one
anywhere else. -/

/-- A character that could end a number stands only behind the letter of an
exponent. -/
def Inside (c d : Char) : Prop :=
  endsNumber d = true → c = 'E' ∨ c = 'e'

theorem isChain_inside {text : List Char} (h : ∀ c ∈ text, endsNumber c = false) :
    text.IsChain Inside :=
  (List.pairwise_of_forall_mem_list fun _ _ d hd hend => by
    rw [h d hd] at hend
    cases hend).isChain

theorem Mantissa.endsNumber_of_mem {m : Mantissa} {c : Char} (h : c ∈ m.text) :
    endsNumber c = false := by
  rcases m.isDigit_or_eq_of_mem h with hdigit | rfl
  · exact endsNumber_of_isDigit hdigit
  · rfl

/-- **In an exponent** only its sign could end a number. -/
theorem Exponent.isChain_text (e : Exponent) : e.text.IsChain Inside := by
  have hdigits : ∀ c ∈ e.digits, endsNumber c = false := fun c hc =>
    endsNumber_of_isDigit (e.isDigit c hc)
  have hletter := endsNumber_of_letter e.isLetter
  unfold text
  cases e.sign? with
  | none => exact isChain_inside (List.forall_mem_cons.2 ⟨hletter, hdigits⟩)
  | some sign =>
    refine List.isChain_cons_cons.2 ⟨fun _ => e.isLetter, List.isChain_cons.2 ⟨?_, ?_⟩⟩
    · intro d hd hend
      rw [hdigits d (List.mem_of_mem_head? hd)] at hend
      cases hend
    · exact isChain_inside hdigits

namespace Numeral

variable {n : Numeral} {rest : List Char}

/-- **In a numeral** only the sign of its exponent could end a number. -/
theorem isChain_text (n : Numeral) : n.text.IsChain Inside := by
  have hmantissa := isChain_inside fun c hc => n.mantissa.endsNumber_of_mem (c := c) hc
  unfold text
  cases n.exponent? with
  | none => rwa [Option.map_none, Option.getD_none, List.append_nil]
  | some e =>
    refine List.isChain_append.2 ⟨hmantissa, e.isChain_text, fun c _ d hd hend => ?_⟩
    obtain rfl : e.letter = d := Option.some.inj hd
    rw [endsNumber_of_letter e.isLetter] at hend
    cases hend

theorem mantissa_text_ne_nil (n : Numeral) : n.mantissa.text ≠ [] := by
  intro hnil
  obtain ⟨hwhole, hfraction⟩ := List.append_eq_nil_iff.1 hnil
  refine n.digits_ne_nil (List.append_eq_nil_iff.2 ⟨hwhole, ?_⟩)
  unfold Mantissa.fraction
  cases hsome : n.mantissa.fraction? with
  | none => rfl
  | some fraction =>
    rw [hsome] at hfraction
    cases hfraction

theorem text_ne_nil (n : Numeral) : n.text ≠ [] :=
  List.append_ne_nil_of_left_ne_nil n.mantissa_text_ne_nil _

/-- **A numeral begins with a digit or a point.** -/
theorem isDigit_or_eq_of_mem_head? {c : Char} (h : c ∈ (n.text ++ rest).head?) :
    c.isDigit = true ∨ c = '.' := by
  rw [text, List.append_assoc, List.head?_append_of_ne_nil _ n.mantissa_text_ne_nil] at h
  exact n.mantissa.isDigit_or_eq_of_mem (List.mem_of_mem_head? h)

/-- **A numeral ends with a digit or a point.** -/
theorem isDigit_or_eq_of_mem_getLast? {c : Char} (h : c ∈ n.text.getLast?) :
    c.isDigit = true ∨ c = '.' := by
  obtain ⟨m, exponent?, hdigits, hexponent⟩ := n
  cases exponent? with
  | none =>
    change c ∈ (m.text ++ []).getLast? at h
    rw [List.append_nil] at h
    exact m.isDigit_or_eq_of_mem (List.mem_of_mem_getLast? h)
  | some e =>
    change c ∈ (m.text ++ (e.letter :: e.sign?.toList ++ e.digits)).getLast? at h
    rw [← List.append_assoc, List.getLast?_append_of_ne_nil _ (hexponent e rfl)] at h
    exact .inl (e.isDigit c (List.mem_of_mem_getLast? h))

/-- **No longer numeral begins** where a numeral can end. The character there
could only be the sign of an exponent, and the last one of the numeral is no
letter. -/
theorem longest (n : Numeral) (h : EndsNumeral rest) : n.Longest rest := by
  intro other hother
  by_contra hlonger
  obtain ⟨more, hmore⟩ := List.prefix_of_prefix_length_le (List.prefix_append n.text rest) hother
    (not_le.1 hlonger).le
  obtain ⟨behind, hbehind⟩ := hother
  rw [← hmore, List.append_assoc, List.append_cancel_left_eq] at hbehind
  cases more with
  | nil => exact hlonger (by rw [← hmore, List.append_nil])
  | cons c more =>
    -- the character behind the numeral could end one, so the last of the numeral is a letter
    have hlast : n.text.getLast n.text_ne_nil ∈ n.text.getLast? :=
      List.getLast?_eq_some_getLast n.text_ne_nil
    have hchain := other.isChain_text
    rw [← hmore] at hchain
    have hend : endsNumber c = true := h.of_mem (by rw [← hbehind]; rfl)
    have hletter := (List.isChain_append.1 hchain).2.2 _ hlast c rfl hend
    generalize n.text.getLast n.text_ne_nil = last at hlast hletter
    rcases isDigit_or_eq_of_mem_getLast? hlast with hdigit | rfl
    · rcases hletter with rfl | rfl <;> cases hdigit
    · rcases hletter with hletter | hletter <;> cases hletter

end Numeral

end Worksheet.Read
