import Worksheet.Proofs.Format.General
import Worksheet.Proofs.Read.Fields
import Worksheet.Proofs.Read.Printed
import Worksheet.Proofs.Read.Sizes
import Worksheet.Proofs.Text.Case

/-!
# The general format and the sections that read it

Numbers are read by four sections, which have the same places for digits: with
an exponent behind them, with nothing, with a percent sign, and with a currency
symbol in front (`Read.generalReader`). When the symbols of a locale are apart
(`NumberSigns.Apart`), each part of a text of the general format is told from
the next one, so digits with a point are always read, and digits with an
exponent are read just when the sign of the exponent is a sign of the locale
(`Read.isSome_read?_generalReader`). Whatever is read is not NaN
(`Read.isNaN_of_read?_generalReader`).
-/

namespace Worksheet

/-! ## Symbols

The symbols come from the locale, and nothing can be said of reading if one may
be taken for another. `NumberSigns.Apart` is what is asked of them, and it is
all that this module asks. -/

/-- The symbols numbers are written with: the signs of one character, and those
of more. -/
def NumberSigns.symbols (signs : NumberSigns) : List (List Char) :=
  signs.marks.map (fun mark => [mark]) ++ [signs.exponentSymbol, signs.currencySymbol]

/-- **Symbols are apart** when none of them is empty or has a digit or a space,
and none is at the front of another, in either case. It is what a reader needs
that looks at the front of a text only. -/
structure NumberSigns.Apart (signs : NumberSigns) : Prop where
  ne_nil : ∀ symbol ∈ signs.symbols, symbol ≠ []
  clear : ∀ symbol ∈ signs.symbols, ∀ c ∈ symbol, c.isDigit = false ∧ c ≠ ' '
  apart : signs.symbols.Pairwise fun symbol other =>
    Text.dropIgnoringCase? symbol other = none ∧ Text.dropIgnoringCase? other symbol = none

namespace NumberSigns.Apart

variable {signs : NumberSigns}

theorem head_ne {c d : Char} {others : List Char}
    (h : Text.dropIgnoringCase? [c] (d :: others) = none) : c ≠ d := by
  rintro rfl
  rw [Text.dropIgnoringCase?, if_pos rfl] at h
  cases h

/-- **The signs of one character are distinct.** -/
theorem distinct (h : signs.Apart) : signs.Distinct := by
  obtain ⟨hmarks, -, -⟩ := List.pairwise_append.1 h.apart
  refine ⟨(List.pairwise_map.1 hmarks).imp fun hne => head_ne hne.1, fun c hc => ?_⟩
  have hmem : [c] ∈ signs.symbols :=
    List.mem_append_left _ (List.mem_map.2 ⟨c, hc, rfl⟩)
  exact (h.clear _ hmem c (List.mem_singleton_self c)).1

/-- **The exponent symbol begins with something else** than a digit or a sign. -/
theorem exponentSymbol_eq (h : signs.Apart) : ∃ first others,
    signs.exponentSymbol = first :: others ∧ first.isDigit = false ∧ first ∉ signs.marks := by
  have hmem : signs.exponentSymbol ∈ signs.symbols := by simp [symbols]
  obtain ⟨first, others, heq⟩ := List.exists_cons_of_ne_nil (h.ne_nil _ hmem)
  refine ⟨first, others, heq, (h.clear _ hmem first (heq ▸ List.mem_cons_self)).1, fun hmark => ?_⟩
  have hapart := (List.pairwise_append.1 h.apart).2.2 [first]
    (List.mem_map.2 ⟨first, hmark, rfl⟩) signs.exponentSymbol List.mem_cons_self
  rw [heq] at hapart
  exact head_ne hapart.1 rfl

theorem bothCases_of_isDigit {c : Char} (h : c.isDigit = true) : Text.bothCases c = [c, c] := by
  obtain ⟨d, hd, rfl⟩ := Text.exists_digitChar h
  interval_cases d <;> rfl

/-- **No digit begins the currency symbol.** -/
theorem dropIgnoringCase?_currency (h : signs.Apart) {c : Char} (hc : c.isDigit = true)
    (rest : List Char) : Text.dropIgnoringCase? signs.currencySymbol (c :: rest) = none := by
  have hmem : signs.currencySymbol ∈ signs.symbols := by simp [symbols]
  obtain ⟨first, others, heq⟩ := List.exists_cons_of_ne_nil (h.ne_nil _ hmem)
  have hfirst : first.isDigit = false := (h.clear _ hmem first (heq ▸ List.mem_cons_self)).1
  rw [heq]
  refine if_neg fun hcase => ?_
  have hsame := Text.mem_bothCases hcase.symm
  rw [bothCases_of_isDigit hc] at hsame
  obtain rfl : first = c := by simpa using hsame
  exact Bool.false_ne_true (hfirst.symm.trans hc)

end NumberSigns.Apart

namespace Read

open Pattern Format Format.General Number

/-! ## The sections

The order matters, because a section may read the front of a text that another
one reads to its end. Here texts are read as a whole, so what is shown is that
the other sections do not reach the end. -/

/-- The steps of digits with a point, as `placeSteps` compiles them from
`#,##0.#`. -/
def numberSteps : List Step :=
  placeSteps .integer [.optional, .optional, .optional, .zero]
    ++ .decimalPoint :: placeSteps .fraction [.optional]

/-- The section with some more steps behind the digits. Three of the four
sections are of this kind. -/
def numberCandidate (more : List Step) : NumberCandidate :=
  ⟨numberSteps ++ more, true, 0⟩

def exponentSteps : List Step :=
  [.exponent, .digit .zero .exponent true]

def currencyCandidate : NumberCandidate :=
  ⟨.currency :: numberSteps, true, 0⟩

/-- **The sections that read numbers**, in the order in which they are tried:
what the standard pattern for numbers compiles to. -/
def generalReader : NumberReader :=
  ⟨[numberCandidate exponentSteps, numberCandidate [], numberCandidate [.percent],
    currencyCandidate]⟩

/-! ## Digits with a point

The steps before and behind the digits are left open in
`takeSteps?_numberSteps`, so that one lemma serves three sections. -/

variable {signs : NumberSigns} {whole fraction rest : List Char}

/-- What is behind the digits is no digit and no sign. Then no place and no
point takes any of it. -/
def Follows (signs : NumberSigns) (rest : List Char) : Prop :=
  ∀ c ∈ rest.head?, c.isDigit = false ∧ c ∉ signs.marks

theorem follows_nil : Follows signs [] :=
  nofun

theorem Follows.endsDigits (h : Follows signs rest) (grouping : Bool) (zone : Zone) :
    EndsDigits (separatorIn signs grouping zone) rest := by
  intro c hc
  obtain ⟨hdigit, hmark⟩ := h c hc
  refine ⟨hdigit, fun hseparator => hmark ?_⟩
  rw [separatorIn] at hseparator
  split at hseparator
  · obtain rfl := Option.some.inj hseparator
    simp [NumberSigns.marks]
  · cases hseparator

/-- What is collected from digits with a point behind a sign. A sign is only
allowed where none was taken yet. -/
def gathered (negative : Bool) (whole fraction : List Char) : Collected :=
  { Collected.start .value with
    negative := negative
    signAllowed := !negative
    integer := whole
    fraction := fraction
    hasPoint := !fraction.isEmpty }

/-- The point is passed over where there is none, and so are the places behind
it, as their zone is only open behind a point. -/
theorem takeSteps?_noPoint (hrest : Follows signs rest) {collected : Collected}
    (hpoint : collected.hasPoint = false) (more : List Step) :
    takeSteps? signs true (.decimalPoint :: placeSteps .fraction [.optional] ++ more)
        collected rest
      = takeSteps? signs true more collected rest := by
  have hnone : Step.decimalPoint.take? signs true collected rest = some (collected, rest) := by
    cases rest with
    | nil => rfl
    | cons c rest =>
      refine if_neg fun hc => (hrest c rfl).2 ?_
      rw [hc]
      exact List.mem_cons_self
  have hclosed : (Step.digit .optional .fraction true).take? signs true collected rest
      = some (collected, rest) := if_pos ⟨rfl, by rw [hpoint]; exact Bool.false_ne_true⟩
  rw [List.cons_append, takeSteps?, hnone]
  dsimp only
  rw [placeSteps, List.cons_append, List.isEmpty_nil, takeSteps?, hclosed]
  rfl

/-- The point, and the digits behind it, which the last place takes whatever
their number is. -/
theorem takeSteps?_point (hsigns : signs.Apart) (hfraction : ∀ c ∈ fraction, c.isDigit = true)
    (hrest : Follows signs rest) {collected : Collected} (hwhole : collected.integer ≠ [])
    (hnone : collected.fraction = []) (more : List Step) :
    takeSteps? signs true (.decimalPoint :: placeSteps .fraction [.optional] ++ more) collected
        (signs.decimalPoint :: fraction ++ rest)
      = takeSteps? signs true more { collected with hasPoint := true, fraction := fraction }
          rest := by
  have hpoint : Step.decimalPoint.take? signs true collected
      (signs.decimalPoint :: fraction ++ rest)
        = some ({ collected with hasPoint := true }, fraction ++ rest) := if_pos rfl
  have hready : Ready signs true .fraction { collected with hasPoint := true } fraction :=
    ⟨by decide, fun _ => rfl, fun hempty => absurd hempty hwhole, separatedDigits_of_all hfraction⟩
  rw [List.cons_append, takeSteps?, hpoint]
  dsimp only
  rw [takeSteps?_append_of_eq_some _ (hready.takeSteps?_places (by decide) (by decide)
    hsigns.distinct (hrest.endsDigits true .fraction)), List.filter_eq_self.2 hfraction,
    Collected.addDigits]
  dsimp only
  rw [hnone, List.nil_append]

/-- **Digits with a point are collected**, and the steps behind them go on from
there. -/
theorem takeSteps?_numberSteps (hsigns : signs.Apart) (h : Digits whole fraction)
    (hrest : Follows signs rest) (negative : Bool) (more : List Step) :
    takeSteps? signs true (numberSteps ++ more)
        { Collected.start .value with negative := negative, signAllowed := !negative }
        (pointedBy signs whole fraction ++ rest)
      = takeSteps? signs true more (gathered negative whole fraction) rest := by
  have hdistinct := hsigns.distinct
  have hwhole : ∀ c ∈ whole, c.isDigit = true := fun c hc =>
    h.isDigit c (List.mem_append_left _ hc)
  have hready : Ready signs true .integer
      { Collected.start .value with negative := negative, signAllowed := !negative } whole := by
    obtain ⟨first, others, rfl⟩ := List.exists_cons_of_ne_nil h.whole_ne_nil
    exact ⟨by decide, nofun, fun _ => ⟨rfl, first, rfl, hwhole first List.mem_cons_self⟩,
      separatedDigits_of_all hwhole⟩
  -- behind the whole part stands the point or what follows the number, and
  -- neither goes on the digits
  have hends : EndsDigits (separatorIn signs true .integer)
      ((if fraction = [] then [] else signs.decimalPoint :: fraction) ++ rest) := by
    split
    · exact hrest.endsDigits true .integer
    · exact DigitPattern.endsDigits_cons hdistinct (by simp [NumberSigns.marks])
        hdistinct.ne.1.1.symm true .integer _
  rw [numberSteps, pointedBy, List.append_assoc, List.append_assoc,
    takeSteps?_append_of_eq_some _
      (hready.takeSteps?_places (by decide) (by decide) hdistinct hends),
    List.filter_eq_self.2 hwhole]
  by_cases hnone : fraction = []
  · subst hnone
    rw [if_pos rfl, List.nil_append, takeSteps?_noPoint hrest rfl]
    rfl
  · have hpoint : gathered negative whole fraction
        = { gathered negative whole [] with hasPoint := true, fraction := fraction } := by
      rw [gathered, List.isEmpty_eq_false_iff.2 hnone]
      rfl
    rw [if_neg hnone, hpoint]
    exact takeSteps?_point hsigns (fun c hc => h.isDigit c (List.mem_append_right _ hc)) hrest
      h.whole_ne_nil rfl more

theorem exists_head?_pointedBy (h : Digits whole fraction) (rest : List Char) :
    ∃ c ∈ (pointedBy signs whole fraction ++ rest).head?, c.isDigit = true := by
  obtain ⟨first, others, rfl⟩ := List.exists_cons_of_ne_nil h.whole_ne_nil
  exact ⟨first, rfl, h.isDigit first List.mem_cons_self⟩

/-- A sign is written in front of a negative number, and nothing in front of
another. -/
def signed (signs : NumberSigns) (negative : Bool) (text : List Char) : List Char :=
  (if negative then [signs.negativeSign] else []) ++ text

/-- **A section collects the digits** and the sign in front of them, and its
other steps go on from there. -/
theorem collect?_numberCandidate (hsigns : signs.Apart) (h : Digits whole fraction)
    (hrest : Follows signs rest) (negative : Bool) (more : List Step) :
    (numberCandidate more).collect? signs .value
        (signed signs negative (pointedBy signs whole fraction ++ rest))
      = takeSteps? signs true more (gathered negative whole fraction) rest := by
  rw [NumberCandidate.collect?, signed,
    DigitPattern.takeSign_printed hsigns.distinct negative (exists_head?_pointedBy h rest)]
  exact takeSteps?_numberSteps hsigns h hrest negative more

theorem exists_value?_gathered (h : Digits whole fraction) (negative : Bool) :
    ∃ value, (gathered negative whole fraction).value? 0 = some value := by
  rw [Collected.value?, gathered, List.isEmpty_eq_false_iff.2 h.whole_ne_nil]
  exact ⟨_, rfl⟩

/-! ## Exponents

The general format writes an exponent with its own sign of ASCII, while reading
looks for the signs of the locale. Where they differ the digits behind are
never reached. -/

variable {sign : Char} {exponent : List Char}

/-- **The step of the exponent** takes its symbol, and a sign of the locale. Any
other sign is left, where the digits of the exponent should be. -/
theorem take?_exponent (signs : NumberSigns) (sign : Char) (collected : Collected)
    (rest : List Char) :
    ∃ collected', Step.exponent.take? signs true collected (signs.exponentSymbol ++ sign :: rest)
        = some (collected', if sign = signs.negativeSign ∨ sign = signs.positiveSign then rest
          else sign :: rest)
      ∧ collected'.integer = collected.integer ∧ collected'.exponent = collected.exponent := by
  have hdrop : signs.dropExponent? (signs.exponentSymbol ++ sign :: rest) = some (sign :: rest) :=
    dropIgnoringCase?_append _ _
  rw [Step.take?.eq_def]
  dsimp only
  rw [hdrop]
  dsimp only
  by_cases hnegative : sign = signs.negativeSign
  · rw [if_pos hnegative, if_pos (.inl hnegative)]
    exact ⟨_, rfl, rfl, rfl⟩
  · by_cases hpositive : sign = signs.positiveSign
    · rw [if_neg hnegative, if_pos hpositive, if_pos (.inr hpositive)]
      exact ⟨_, rfl, rfl, rfl⟩
    · rw [if_neg hnegative, if_neg hpositive, if_neg (not_or.2 ⟨hnegative, hpositive⟩)]
      exact ⟨_, rfl, rfl, rfl⟩

theorem take?_exponentDigits (signs : NumberSigns) (collected : Collected)
    (exponent : List Char) {text : List Char} (hdigits : ∀ c ∈ exponent, c.isDigit = true)
    (htext : Text.Stops Char.isDigit text) :
    (Step.digit .zero .exponent true).take? signs true collected (exponent ++ text)
      = some (collected.addDigits .exponent exponent, text) := by
  rw [Step.take?, if_neg (by simp), if_neg (by simp), takePlace.eq_def, if_pos rfl]
  exact congrArg (fun taken : List Char × List Char =>
    some (collected.addDigits .exponent taken.1, taken.2))
    (takeDigits_append (!collected.integer.isEmpty) hdigits htext)

theorem follows_exponent (hsigns : signs.Apart) (text : List Char) :
    Follows signs (signs.exponentSymbol ++ text) := by
  obtain ⟨first, others, heq, hdigit, hmark⟩ := hsigns.exponentSymbol_eq
  rw [heq]
  rintro c hc
  obtain rfl := Option.some.inj hc
  exact ⟨hdigit, hmark⟩

/-- **The section with an exponent** reads a number with one just when the sign
of the exponent is a sign of the locale. Otherwise there are no digits behind
the symbol, and no number. -/
theorem isSome_read?_exponent (hsigns : signs.Apart) (h : Digits whole fraction)
    (hsign : sign.isDigit = false) (hsome : exponent ≠ [])
    (hdigits : ∀ c ∈ exponent, c.isDigit = true) (negative : Bool) :
    ((numberCandidate exponentSteps).read? signs .value (signed signs negative
        (pointedBy signs whole fraction
          ++ (signs.exponentSymbol ++ sign :: exponent)))).isSome = true
      ↔ sign = signs.negativeSign ∨ sign = signs.positiveSign := by
  obtain ⟨collected, htake, hinteger, hexponent⟩ :=
    take?_exponent signs sign (gathered negative whole fraction) exponent
  rw [NumberCandidate.read?_eq, collect?_numberCandidate hsigns h (follows_exponent hsigns _),
    exponentSteps, takeSteps?, htake]
  dsimp only
  by_cases hlocale : sign = signs.negativeSign ∨ sign = signs.positiveSign
  · -- the sign is the locale's, so the digits behind it are taken and nothing
    -- is left
    have hall : (Step.digit .zero .exponent true).take? signs true collected (exponent ++ [])
        = some (collected.addDigits .exponent exponent, []) :=
      take?_exponentDigits signs collected exponent hdigits rfl
    rw [List.append_nil] at hall
    rw [if_pos hlocale, takeSteps?, hall]
    have hwhole : (collected.addDigits .exponent exponent).integer.isEmpty = false := by
      show collected.integer.isEmpty = false
      rw [hinteger]
      exact List.isEmpty_eq_false_iff.2 h.whole_ne_nil
    have hdigit : (collected.addDigits .exponent exponent).exponent.isEmpty = false :=
      List.isEmpty_eq_false_iff.2 (List.append_ne_nil_of_right_ne_nil _ hsome)
    refine iff_of_true ?_ hlocale
    show ((collected.addDigits .exponent exponent).value? 0 |>.map _).isSome = true
    rw [Option.isSome_map, Collected.value?, hwhole, hdigit, Bool.false_and, Bool.and_false]
    rfl
  · -- the sign is no digit, so it is left
    have hnone : (Step.digit .zero .exponent true).take? signs true collected (sign :: exponent)
        = some (collected.addDigits .exponent [], sign :: exponent) :=
      take?_exponentDigits signs collected [] (List.forall_mem_nil _) (Text.stops_cons.2 hsign)
    rw [if_neg hlocale, takeSteps?, hnone]
    exact iff_of_false Bool.false_ne_true hlocale

/-- **The other sections** read no number with an exponent: the first comes to
no end of the text, the second finds no percent sign behind the digits, and the
third no currency symbol before them. -/
theorem read?_exponent_eq_none (hsigns : signs.Apart) (h : Digits whole fraction)
    (text : List Char) (negative : Bool) : ∀ candidate ∈
      [numberCandidate [], numberCandidate [.percent], currencyCandidate],
      candidate.read? signs .value (signed signs negative
        (pointedBy signs whole fraction ++ (signs.exponentSymbol ++ text))) = none := by
  have hfollows := follows_exponent hsigns text
  obtain ⟨first, others, heq, -, hmark⟩ := hsigns.exponentSymbol_eq
  simp only [List.forall_mem_cons, List.not_mem_nil, false_imp_iff, implies_true, and_true]
  refine ⟨?_, ?_, ?_⟩
  · -- the exponent is left
    rw [NumberCandidate.read?_eq, collect?_numberCandidate hsigns h hfollows, heq]
    rfl
  · -- it begins with no percent sign
    have hpercent : first ≠ signs.percentSymbol := by
      rintro rfl
      exact hmark (by simp [NumberSigns.marks])
    rw [NumberCandidate.read?_eq, collect?_numberCandidate hsigns h hfollows, heq, List.cons_append,
      takeSteps?, Step.take?, if_neg hpercent]
    rfl
  · -- and the digits with no currency symbol
    obtain ⟨digit, rest, hwhole⟩ := List.exists_cons_of_ne_nil h.whole_ne_nil
    have hdigit : digit.isDigit = true :=
      h.isDigit digit (by rw [hwhole]; exact List.mem_cons_self)
    rw [NumberCandidate.read?_eq, NumberCandidate.collect?, signed, DigitPattern.takeSign_printed
      hsigns.distinct negative (exists_head?_pointedBy h _)]
    dsimp only
    rw [currencyCandidate, takeSteps?, Step.take?, pointedBy, hwhole, List.cons_append,
      List.cons_append, hsigns.dropIgnoringCase?_currency hdigit]
    rfl

/-! ## Numbers in general format

The two forms of `Written` are taken one at a time. A text without an exponent
is read by the section that asks for digits only, and one with an exponent by
the first section or by none. -/

/-- **The sections read every text of the general format** (`Written`) without
an exponent, and one with an exponent just when its sign is a sign of the
locale. -/
theorem isSome_read?_generalReader (hsigns : signs.Apart) {sign? : Option Char}
    (hsign : ∀ sign ∈ sign?, sign.isDigit = false) {text : List Char}
    (h : Written signs sign? text) (negative : Bool) :
    (generalReader.read? signs (signed signs negative text)).isSome = true
      ↔ ∀ sign ∈ sign?, sign = signs.negativeSign ∨ sign = signs.positiveSign := by
  rw [NumberReader.read?, Option.isSome_map, NumberReader.readFront?, List.isSome_findSome?,
    List.any_eq_true]
  cases h with
  | plain h =>
    refine iff_of_true ⟨numberCandidate [], by simp [generalReader], ?_⟩ fun sign hsign =>
      absurd hsign (Option.not_mem_none sign)
    obtain ⟨value, hvalue⟩ := exists_value?_gathered h negative
    have hcollect := collect?_numberCandidate hsigns h follows_nil negative []
    rw [List.append_nil] at hcollect
    rw [NumberCandidate.read?_eq, hcollect]
    show ((gathered negative _ _).value? 0 |>.map _).isSome = true
    rw [hvalue]
    rfl
  | scientific h sign hsome hdigits =>
    rename_i whole fraction exponent
    have hexponent := isSome_read?_exponent hsigns h (hsign sign rfl) hsome hdigits negative
    -- only the first candidate has an exponent; the others stop in front of the
    -- letter
    have hothers := read?_exponent_eq_none hsigns h (sign :: exponent) negative
    rw [List.append_assoc]
    constructor
    · rintro ⟨candidate, hcandidate, hread⟩ sign' hsign'
      obtain rfl := Option.some.inj hsign'
      rcases List.mem_cons.1 hcandidate with rfl | hcandidate
      · exact hexponent.1 hread
      · rw [hothers candidate hcandidate] at hread
        cases hread
    · intro hlocale
      exact ⟨_, List.mem_cons_self, hexponent.2 (hlocale sign rfl)⟩

/-- **The sections read no NaN**, whatever is before them: none of them scales,
or has more than one percent sign. -/
theorem isNaN_of_read?_generalReader {signs : NumberSigns} {text : List Char} {value : Float}
    (h : generalReader.read? signs text = some value) : value.isNaN = false := by
  obtain ⟨⟨number, rest⟩, hfront, rfl⟩ := Option.map_eq_some_iff.1 h
  obtain ⟨candidate, hcandidate, hread⟩ := List.exists_of_findSome?_eq_some hfront
  have hsections : ∀ candidate ∈ generalReader.candidates,
      candidate.scale = 0 ∧ candidate.steps.count .percent ≤ 1 := by decide
  obtain ⟨hscale, hsteps⟩ := hsections candidate hcandidate
  exact candidate.isNaN_of_read? hscale hsteps hread

end Read

end Worksheet
