import Worksheet.Proofs.Read.Alternatives
import Worksheet.Proofs.Read.Places

/-!
# Numbers are read as they were printed

A pattern of plain digits both prints numbers and reads them. It reads every
number it has printed to the end, and what it collects on the way
(`NumberCandidate.collect?`) is what was printed: the sign, the digits before
the point and those behind it (`collects_printed`). The signs only have to be
told apart from each other and from digits.

What is read is not always the number that was printed, since digits that have
no place are not printed.
-/

namespace Worksheet

open Pattern Format Read

namespace Read

/-- What a section collects from the front of a text, and what follows it.
Reading a number is this, and then taking the value
(`NumberCandidate.read?_eq`). -/
def NumberCandidate.collect? (candidate : NumberCandidate) (signs : NumberSigns) (mode : Mode)
    (text : List Char) : Option (Collected × List Char) :=
  let (collected, rest) := (Collected.start mode).takeSign signs text
  takeSteps? signs candidate.grouping candidate.steps collected rest

theorem NumberCandidate.read?_eq (candidate : NumberCandidate) (signs : NumberSigns) (mode : Mode)
    (text : List Char) : candidate.read? signs mode text
      = (candidate.collect? signs mode text).bind fun (collected, rest) =>
        if isComplete mode rest then (collected.value? candidate.scale).map (·, rest)
        else none := by
  rw [NumberCandidate.read?, NumberCandidate.collect?]
  dsimp only
  split
  · rename_i hnone
    rw [hnone]
    rfl
  · rename_i hsome
    rw [hsome]
    rfl

end Read

namespace Format.DigitPattern

variable (p : DigitPattern)

def decimalSteps : List Step :=
  if p.fraction = [] then [] else .decimalPoint :: placeSteps .fraction (places p.fraction)

/-- The section for reading numbers that a pattern of plain digits has. -/
def candidate : NumberCandidate where
  steps := placeSteps .integer (places p.integer)
    ++ (p.decimalSteps ++ List.replicate p.percents .percent)
  grouping := p.layout.grouping
  scale := p.scale

theorem markLast_percents (n : ℕ) :
    NumberCandidate.markLast ((List.replicate n NumberItem.percent).map NumberItem.step)
      = List.replicate n .percent := by
  induction n with
  | zero => rfl
  | succ n ih =>
    rw [List.replicate_succ, List.map_cons, List.replicate_succ, ← ih]
    rfl

theorem any_percents (zone : Zone) (n : ℕ) :
    ((List.replicate n NumberItem.percent).map NumberItem.step).any
      (NumberCandidate.isDigitOf zone) = false := by
  rw [List.map_replicate, List.any_replicate]
  split <;> rfl

theorem markLast_decimals :
    NumberCandidate.markLast ((p.decimalItems ++ List.replicate p.percents NumberItem.percent).map
      NumberItem.step) = p.decimalSteps ++ List.replicate p.percents .percent := by
  rw [List.map_append, decimalItems, decimalSteps]
  split
  · exact markLast_percents p.percents
  · have hplaces := markLast_places (any_percents .fraction p.percents) (places p.fraction)
    rw [markLast_percents] at hplaces
    exact congrArg (List.cons Step.decimalPoint) hplaces

theorem any_decimals :
    ((p.decimalItems ++ List.replicate p.percents NumberItem.percent).map NumberItem.step).any
      (NumberCandidate.isDigitOf .integer) = false := by
  rw [List.map_append, List.any_append, any_percents, Bool.or_false, decimalItems]
  split
  · rfl
  · simp [NumberItem.step, NumberCandidate.isDigitOf]

/-- **The section that is compiled for reading** is that one: each run of places
ends with its zone. -/
theorem numberCandidate_eq : NumberCandidate.ofLeaves (p.text.map plainLeaf) = p.candidate := by
  have hscale : p.layout.scale = p.scale := by
    obtain ⟨grouping, hlayout⟩ := p.layout_eq
    rw [hlayout]
  rw [numberCandidate_plainLeaves, ← layout, items_layout, hscale, items, List.map_append,
    markLast_places p.any_decimals, markLast_decimals, candidate]

/-- **A pattern of plain digits reads numbers** by its one section, and needs
nothing else of the locale. -/
theorem numberReaderOf?_text : Converter.numberReaderOf? p.text = .ok ⟨[p.candidate]⟩ := by
  have hleaves : (digitsTree p.text).leaves = p.text.map plainLeaf := by
    show Token.leavesSkippingAll _ (p.text.map plainLeaf) = _
    induction p.text with
    | nil => rfl
    | cons c text ih =>
      rw [List.map_cons, Token.leavesSkippingAll, ih]
      rfl
  have hsections : Converter.numberReaderOf? p.text
      = .ok ⟨[digitsTree p.text].map fun token => .ofLeaves token.leaves⟩ :=
    numberReaderOf?_of_sections (p.plainDigits.ofText?_eq (.inr rfl)) rfl
  rw [hsections, List.map_singleton, hleaves, numberCandidate_eq]

/-! ## Collecting what was printed

The text is gone through in the order of the steps. At each sign one has to
know that no other is taken for it, which is all that the symbols being
distinct is used for. -/

variable {signs : NumberSigns} {integer fraction : List Char}

/-- What is collected from a printed number: its sign, its digits without the
separators, and how many percent signs there are. -/
def collected (negative : Bool) (integer fraction : List Char) : Collected where
  negative := negative
  signAllowed := !negative
  integer := integer.filter Char.isDigit
  fraction := if p.fraction = [] then [] else fraction
  exponent := []
  hasPoint := !p.fraction.isEmpty
  hasExponent := false
  exponentNegative := false
  percent := p.percents

theorem separatorIn_integer (signs : NumberSigns) :
    separatorIn signs p.layout.grouping .integer = p.separator? signs := by
  rw [separatorIn, separator?, decide_eq_true rfl, Bool.and_true]

/-- Digits end at any other sign, as distinct signs are not taken for
separators. -/
theorem endsDigits_cons (hsigns : signs.Distinct) {mark : Char} (hmark : mark ∈ signs.marks)
    (hne : signs.groupSeparator ≠ mark) (grouping : Bool) (zone : Zone) (text : List Char) :
    EndsDigits (separatorIn signs grouping zone) (mark :: text) := by
  rintro c hc
  obtain rfl : mark = c := Option.some.inj hc
  refine ⟨hsigns.not_digit mark hmark, fun hseparator => ?_⟩
  rw [separatorIn] at hseparator
  split at hseparator
  · exact hne (Option.some.inj hseparator)
  · cases hseparator

theorem endsDigits_percents (hsigns : signs.Distinct) (grouping : Bool) (zone : Zone) (n : ℕ) :
    EndsDigits (separatorIn signs grouping zone) (List.replicate n signs.percentSymbol) := by
  cases n with
  | zero => exact nofun
  | succ n =>
    obtain ⟨-, -, hne, -⟩ := hsigns.ne
    exact endsDigits_cons hsigns (by simp [NumberSigns.marks]) hne grouping zone _

theorem takeSign_printed (hsigns : signs.Distinct) (negative : Bool) {text : List Char}
    (hhead : ∃ c ∈ text.head?, c.isDigit = true) :
    (Collected.start .value).takeSign signs
        ((if negative then [signs.negativeSign] else []) ++ text)
      = ({ Collected.start .value with negative := negative, signAllowed := !negative }, text) := by
  cases negative with
  | true =>
    simp [Collected.takeSign, Collected.start]
  | false =>
    obtain ⟨c, hc, hdigit⟩ := hhead
    obtain ⟨others, rfl⟩ := List.head?_eq_some_iff.1 hc
    exact takeSign_of_isDigit hsigns hdigit

theorem places_fraction_ne_nil (hsome : p.fraction ≠ []) : places p.fraction ≠ [] := by
  obtain ⟨c, rest, hrun⟩ := List.exists_cons_of_ne_nil hsome
  have hcomma : c ≠ ',' := by
    rintro rfl
    exact (p.fraction_mem ',' (hrun ▸ List.mem_cons_self)).elim (by decide) (by decide)
  rw [places, hrun, List.filter_cons_of_pos (by simpa using hcomma)]
  exact List.cons_ne_nil _ _

/-- The point, what is behind it and the percent signs. Without places behind it
no point is printed, and none is asked for. -/
theorem takeSteps?_decimals (hsigns : signs.Distinct) (hfraction : AllDigits fraction)
    {whole : Collected} (hwhole : whole.integer ≠ []) (grouping : Bool) :
    takeSteps? signs grouping (p.decimalSteps ++ List.replicate p.percents .percent) whole
        ((if p.fraction = [] then [] else signs.decimalPoint :: fraction)
          ++ List.replicate p.percents signs.percentSymbol)
      = some ({ whole with
          hasPoint := whole.hasPoint || !p.fraction.isEmpty
          fraction := whole.fraction ++ if p.fraction = [] then [] else fraction
          percent := whole.percent + p.percents }, []) := by
  rw [decimalSteps]
  split
  · rename_i hnone
    rw [List.nil_append, List.nil_append, takeSteps?_percents, List.append_nil, hnone]
    rw [List.isEmpty_nil, Bool.not_true, Bool.or_false]
  · rename_i hsome
    have hready : Ready signs grouping .fraction { whole with hasPoint := true } fraction :=
      ⟨by decide, fun _ => rfl, fun hnone => absurd hnone hwhole,
        separatedDigits_of_all hfraction⟩
    rw [List.cons_append, List.cons_append, takeSteps?, Step.take?, if_pos rfl]
    dsimp only
    rw [takeSteps?_append_of_eq_some _ (hready.takeSteps?_places (p.places_fraction_ne_nil hsome)
      (space_notMem_places _) hsigns (endsDigits_percents hsigns _ _ _)), takeSteps?_percents,
      List.filter_eq_self.2 hfraction, List.isEmpty_eq_false_iff.2 hsome, Bool.not_false,
      Bool.or_true]
    rfl

theorem filter_isDigit_ne_nil {text : List Char} (hhead : ∃ c ∈ text.head?, c.isDigit = true) :
    text.filter Char.isDigit ≠ [] := by
  obtain ⟨c, hc, hdigit⟩ := hhead
  exact List.ne_nil_of_mem (List.mem_filter.2 ⟨List.mem_of_head? hc, hdigit⟩)

/-- **What is printed is collected**, and nothing is left. By the parts of the
text: the sign, the places before the point (`takeSteps?_places`), and the rest
(`takeSteps?_decimals`). -/
theorem collect?_printed (hsigns : signs.Distinct) (negative : Bool)
    (hinteger : ∀ started, SeparatedDigits (p.separator? signs) started integer)
    (hhead : ∃ c ∈ integer.head?, c.isDigit = true) (hfraction : AllDigits fraction) :
    p.candidate.collect? signs .value (p.printed signs negative integer fraction)
      = some (p.collected negative integer fraction, []) := by
  have hready : Ready signs p.layout.grouping .integer
      { Collected.start .value with negative := negative, signAllowed := !negative } integer :=
    ⟨by decide, nofun, fun _ => ⟨rfl, hhead⟩, p.separatorIn_integer signs ▸ hinteger _⟩
  have hends : EndsDigits (separatorIn signs p.layout.grouping .integer)
      ((if p.fraction = [] then [] else signs.decimalPoint :: fraction)
        ++ List.replicate p.percents signs.percentSymbol) := by
    split
    · exact endsDigits_percents hsigns _ _ _
    · exact endsDigits_cons hsigns (by simp [NumberSigns.marks]) hsigns.ne.1.1.symm _ _ _
  have hsome := filter_isDigit_ne_nil hhead
  have hwhole : places p.integer ≠ [] := List.ne_nil_of_mem p.zero_mem_places
  have hhead' : ∃ c ∈ (integer ++ ((if p.fraction = [] then [] else signs.decimalPoint :: fraction)
      ++ List.replicate p.percents signs.percentSymbol)).head?, c.isDigit = true := by
    obtain ⟨c, hc, hdigit⟩ := hhead
    exact ⟨c, List.mem_head?_append_of_mem_head? hc, hdigit⟩
  rw [NumberCandidate.collect?, printed, takeSign_printed hsigns negative hhead']
  dsimp only
  rw [candidate, takeSteps?_append_of_eq_some _ (hready.takeSteps?_places hwhole
    (space_notMem_places _) hsigns hends), p.takeSteps?_decimals hsigns hfraction hsome]
  simp only [Collected.addDigits, Collected.start, collected, List.nil_append, Nat.zero_add,
    Bool.false_or]

/-! ## The digits in a text

What was collected is then compared with the text itself: it is cut at its
first point, and its digits are filtered out. The result mentions neither the
steps nor how the text was made. -/

/-- A sign that does not group digits is not among them. -/
theorem mark_notMem (hsigns : signs.Distinct) {mark : Char} (hmark : mark ∈ signs.marks)
    (hne : mark ≠ signs.groupSeparator)
    (hinteger : SeparatedDigits (p.separator? signs) true integer) : mark ∉ integer := by
  intro hmem
  rcases hinteger.isDigit_or_eq mark hmem with hdigit | hseparator
  · exact hsigns.notMem_marks hdigit hmark
  · rw [separator?] at hseparator
    split at hseparator
    · exact hne (Option.some.inj hseparator).symm
    · cases hseparator

theorem filter_marks (hsigns : signs.Distinct) {text : List Char}
    (htext : ∀ c ∈ text, c ∈ signs.marks) : text.filter Char.isDigit = [] :=
  List.filter_eq_nil_iff.2 fun c hc hdigit => hsigns.notMem_marks hdigit (htext c hc)

/-- **A printed number has a sign in front when it is negative**, and no other
sign like it. -/
theorem contains_printed (hsigns : signs.Distinct) (negative : Bool)
    (hinteger : SeparatedDigits (p.separator? signs) true integer)
    (hfraction : AllDigits fraction) :
    (p.printed signs negative integer fraction).contains signs.negativeSign = negative := by
  obtain ⟨⟨-, hpoint, -⟩, hgroup, -, hpercent⟩ := hsigns.ne
  have hmark : signs.negativeSign ∈ signs.marks := by simp [NumberSigns.marks]
  cases negative with
  | true => exact List.contains_iff_mem.2 List.mem_cons_self
  | false =>
    have hmem : signs.negativeSign ∉ p.printed signs false integer fraction := by
      rw [printed, if_neg Bool.false_ne_true, List.nil_append, List.mem_append, List.mem_append]
      rintro (h | h | h)
      · exact p.mark_notMem hsigns hmark hgroup.symm hinteger h
      · split at h
        · cases h
        · rcases List.mem_cons.1 h with h | h
          · exact hpoint h.symm
          · exact hsigns.notMem_marks (hfraction _ h) hmark
      · exact hpercent (List.eq_of_mem_replicate h)
    exact Bool.eq_false_iff.2 fun h => hmem (List.contains_iff_mem.1 h)

/-- The point of a printed number is the first that is found, so the text can be
cut there without knowing how it was made. -/
theorem takeWhile_dropWhile_printed (hsigns : signs.Distinct) (negative : Bool)
    (hinteger : SeparatedDigits (p.separator? signs) true integer) (fraction : List Char) :
    (p.printed signs negative integer fraction).takeWhile (· ≠ signs.decimalPoint)
        = (if negative then [signs.negativeSign] else []) ++ (integer
          ++ if p.fraction = [] then List.replicate p.percents signs.percentSymbol else [])
      ∧ (p.printed signs negative integer fraction).dropWhile (· ≠ signs.decimalPoint)
        = if p.fraction = [] then []
          else signs.decimalPoint :: (fraction
            ++ List.replicate p.percents signs.percentSymbol) := by
  obtain ⟨⟨hseparator, hnegative, hpercent⟩, -⟩ := hsigns.ne
  have hfront : ∀ c ∈ (if negative then [signs.negativeSign] else []) ++ integer,
      decide (c ≠ signs.decimalPoint) = true := by
    refine fun c hc => decide_eq_true fun h => ?_
    subst h
    rcases List.mem_append.1 hc with hc | hc
    · split at hc
      · exact hnegative (List.mem_singleton.1 hc)
      · cases hc
    · exact p.mark_notMem hsigns (by simp [NumberSigns.marks]) hseparator hinteger hc
  have hpercents : ∀ c ∈ List.replicate p.percents signs.percentSymbol,
      decide (c ≠ signs.decimalPoint) = true := fun c hc =>
    decide_eq_true (List.eq_of_mem_replicate hc ▸ hpercent.symm)
  rw [printed, ← List.append_assoc, List.takeWhile_append_of_pos hfront,
    List.dropWhile_append_of_pos hfront, ← List.append_assoc]
  by_cases hnone : p.fraction = []
  · rw [if_pos hnone, if_pos hnone, if_pos hnone, List.nil_append,
      List.takeWhile_eq_self_iff.2 hpercents, List.dropWhile_eq_nil_iff.2 hpercents]
    exact ⟨rfl, rfl⟩
  · rw [if_neg hnone, if_neg hnone, if_neg hnone, List.cons_append,
      List.takeWhile_cons_of_neg (by simp), List.dropWhile_cons_of_neg (by simp)]
    exact ⟨rfl, rfl⟩

/-- **The digits on both sides of the point** are those that are collected. -/
theorem digits_printed (hsigns : signs.Distinct) (negative : Bool)
    (hinteger : SeparatedDigits (p.separator? signs) true integer)
    (hfraction : AllDigits fraction) :
    ((p.printed signs negative integer fraction).takeWhile
          (· ≠ signs.decimalPoint)).filter Char.isDigit
        = (p.collected negative integer fraction).integer
      ∧ ((p.printed signs negative integer fraction).dropWhile
          (· ≠ signs.decimalPoint)).filter Char.isDigit
        = (p.collected negative integer fraction).fraction := by
  obtain ⟨htake, hdrop⟩ := p.takeWhile_dropWhile_printed hsigns negative hinteger fraction
  have hsign : (if negative then [signs.negativeSign] else []).filter Char.isDigit = [] := by
    refine filter_marks hsigns fun c hc => ?_
    split at hc
    · rw [List.mem_singleton.1 hc]
      simp [NumberSigns.marks]
    · cases hc
  have hpercents : (List.replicate p.percents signs.percentSymbol).filter Char.isDigit = [] := by
    refine filter_marks hsigns fun c hc => ?_
    rw [List.eq_of_mem_replicate hc]
    simp [NumberSigns.marks]
  have hpoint : signs.decimalPoint.isDigit = false :=
    hsigns.not_digit _ (by simp [NumberSigns.marks])
  rw [htake, hdrop, List.filter_append, hsign, List.nil_append, List.filter_append, collected]
  split
  · rw [hpercents, List.append_nil]
    exact ⟨rfl, rfl⟩
  · rw [List.filter_cons_of_neg (by simp [hpoint]), List.filter_append, hpercents, List.append_nil,
      List.filter_eq_self.2 hfraction, List.filter_nil, List.append_nil]
    exact ⟨rfl, rfl⟩

end Format.DigitPattern

/-! ## Numbers -/

/-- **What is collected from a printed number is what was printed.** A pattern
of plain digits prints every finite number whose size in percent and thousands
is finite, and reads the text to its end; the sign, the digits before the point
and the digits behind it that it collects are those of the text, and the sign is
that of the number. -/
theorem collects_printed (p : DigitPattern) (locale : Locale)
    (hsigns : locale.numbers.Distinct) (value : Float) (hfinite : value.isFinite = true)
    (hscaled : (value.abs * Number.powInt 100 p.percents
      / Number.powInt 1000 p.scale).isFinite = true) :
    ∃ formatter candidate printed collected,
      Converter.formatterOf? .numberFormat p.text = .ok formatter
        ∧ formatter.format? locale (.number value) = some ⟨printed, none⟩
        ∧ Converter.numberReaderOf? p.text = .ok ⟨[candidate]⟩
        ∧ candidate.collect? locale.numbers .value printed = some (collected, [])
        ∧ (∃ number, collected.value? candidate.scale = some number
          ∧ NumberReader.read? ⟨[candidate]⟩ locale.numbers printed = some number)
        ∧ collected.negative = decide (value < 0)
        ∧ collected.negative = printed.contains locale.numbers.negativeSign
        ∧ collected.integer
          = (printed.takeWhile (· ≠ locale.numbers.decimalPoint)).filter Char.isDigit
        ∧ collected.fraction
          = (printed.dropWhile (· ≠ locale.numbers.decimalPoint)).filter Char.isDigit := by
  rw [← p.scaled_layout] at hscaled
  obtain ⟨integer, fraction, hformat, hinteger, hhead, hfraction⟩ :=
    p.format_eq locale.numbers hfinite hscaled
  have hcollect := p.collect?_printed hsigns (decide (value < 0)) hinteger hhead hfraction
  obtain ⟨hwhole, hdecimals⟩ := p.digits_printed hsigns (decide (value < 0)) (hinteger true)
    hfraction
  have hsome := DigitPattern.filter_isDigit_ne_nil hhead
  obtain ⟨number, hnumber⟩ : ∃ number,
      (p.collected (decide (value < 0)) integer fraction).value? p.candidate.scale
        = some number := by
    rw [Collected.value?, DigitPattern.collected, List.isEmpty_eq_false_iff.2 hsome]
    exact ⟨_, rfl⟩
  rw [← hformat] at hcollect hwhole hdecimals
  refine ⟨_, p.candidate, p.layout.format locale.numbers value, _, p.formatterOf?_text, rfl,
    p.numberReaderOf?_text, hcollect, ⟨number, hnumber, ?_⟩, rfl, ?_, hwhole.symm, hdecimals.symm⟩
  · -- the reader has one candidate, which leaves nothing of the text
    have hread : p.candidate.read? locale.numbers .value
        (p.layout.format locale.numbers value) = some (number, []) := by
      rw [NumberCandidate.read?_eq, hcollect, Option.bind_some]
      dsimp only
      rw [hnumber]
      rfl
    rw [NumberReader.read?, NumberReader.readFront?, List.findSome?_singleton, hread]
    rfl
  · rw [hformat]
    exact (p.contains_printed hsigns _ (hinteger true) hfraction).symm

/-- Percentages of thousands, in groups of three digits, with one or two digits
behind the point. -/
def percentOfThousands : DigitPattern where
  integer := "#,##0".toList
  scale := 1
  fraction := "0#".toList
  percents := 1
  integer_mem := by simp
  integer_head := by decide
  integer_last := by decide
  fraction_mem := by simp

def pointGroups : Locale :=
  { Locale.standard with
    numbers := { NumberSigns.standard with decimalPoint := ',', groupSeparator := '.' } }

/-- A negative number with a point and groups, under a locale that has the two
the other way round. -/
theorem collects_printed_percentOfThousands :
    percentOfThousands.text = "#,##0,.0#%".toList ∧ pointGroups.numbers.Distinct
      ∧ (-1234567.891 : Float).isFinite = true
      ∧ ((-1234567.891 : Float).abs * Number.powInt 100 1 / Number.powInt 1000 1).isFinite = true
      ∧ ∃ formatter candidate printed collected,
        Converter.formatterOf? .numberFormat percentOfThousands.text = .ok formatter
          ∧ formatter.format? pointGroups (.number (-1234567.891)) = some ⟨printed, none⟩
          ∧ Converter.numberReaderOf? percentOfThousands.text = .ok ⟨[candidate]⟩
          ∧ candidate.collect? pointGroups.numbers .value printed = some (collected, [])
          ∧ (∃ number, collected.value? candidate.scale = some number
            ∧ NumberReader.read? ⟨[candidate]⟩ pointGroups.numbers printed = some number)
          ∧ collected.negative = decide ((-1234567.891 : Float) < 0)
          ∧ collected.negative = printed.contains pointGroups.numbers.negativeSign
          ∧ collected.integer
            = (printed.takeWhile (· ≠ pointGroups.numbers.decimalPoint)).filter Char.isDigit
          ∧ collected.fraction
            = (printed.dropWhile (· ≠ pointGroups.numbers.decimalPoint)).filter Char.isDigit := by
  have hsigns : pointGroups.numbers.Distinct :=
    ⟨by decide, by simp [NumberSigns.marks, pointGroups, NumberSigns.standard]⟩
  have hfinite : (-1234567.891 : Float).isFinite = true := by decide +kernel
  have hscaled : ((-1234567.891 : Float).abs * Number.powInt 100 1
      / Number.powInt 1000 1).isFinite = true := by decide +kernel
  exact ⟨by decide, hsigns, hfinite, hscaled,
    collects_printed percentOfThousands pointGroups hsigns (-1234567.891) hfinite hscaled⟩

/-- What is printed there. -/
example : percentOfThousands.layout.format pointGroups.numbers (-1234567.891)
    = "-123.456,79%".toList := by
  decide +kernel

end Worksheet
