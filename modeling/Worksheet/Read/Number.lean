import Worksheet.Format.Number
import Worksheet.Text.Blank

/-!
# Reading numbers

A pattern for reading numbers has sections that are tried in turn. A section is
a row of steps, each of which takes what it stands for from the front of the
text: the digits it finds, a sign, a symbol, or a literal. Digit places and the
decimal point may find nothing; symbols and literals have to be there. The last
place of each run of digits takes all the digits there are.

A step takes at least as many characters as it collects digits (`size_take?`),
so a number, which has a digit, takes at least one character
(`NumberReader.length_readFront?`).

Once the steps are through, a number that is a whole text must have come to its
end, and a number inside a formula to a character that can follow one.
-/

namespace Worksheet.Read

open Pattern Format

/-- Where a number is read. -/
inductive Mode where
  /-- The number is the whole text, and may have a sign. -/
  | value
  /-- The number is a literal in a formula, where signs are operators. -/
  | expression
  deriving DecidableEq, Repr

/-- Whether a character may stand right after a number in a formula. -/
def endsNumber (c : Char) : Bool :=
  Text.isBlank c || "+-*/^&=<>%),;:\x7d".toList.contains c

/-- **What is collected while a section is gone through**: the digits of each
zone, what was seen of sign, point and exponent, and how many percent signs
there were. -/
structure Collected where
  /-- Whether the number is negative. -/
  negative : Bool
  /-- Whether a sign may still come. -/
  signAllowed : Bool
  /-- The digits before the decimal point. -/
  integer : List Char
  /-- The digits after the decimal point. -/
  fraction : List Char
  /-- The digits of the exponent. -/
  exponent : List Char
  /-- Whether there was a decimal point. -/
  hasPoint : Bool
  /-- Whether there was an exponent symbol. -/
  hasExponent : Bool
  /-- Whether the exponent is negative. -/
  exponentNegative : Bool
  /-- How many percent signs there were. -/
  percent : Nat
  deriving DecidableEq

namespace Collected

/-- Nothing collected yet. -/
def start (mode : Mode) : Collected where
  negative := false
  signAllowed := mode = .value
  integer := []
  fraction := []
  exponent := []
  hasPoint := false
  hasExponent := false
  exponentNegative := false
  percent := 0

/-- Further digits of a zone. -/
def addDigits (collected : Collected) (zone : Zone) (digits : List Char) : Collected :=
  match zone with
  | .integer => { collected with integer := collected.integer ++ digits }
  | .fraction => { collected with fraction := collected.fraction ++ digits }
  | .exponent => { collected with exponent := collected.exponent ++ digits }

/-- A sign at the front of a text, if one may still come and is there. -/
def takeSign (signs : NumberSigns) (collected : Collected) (text : List Char) :
    Collected × List Char :=
  match text with
  | c :: rest =>
    if collected.signAllowed then
      if c = signs.negativeSign then
        ({ collected with negative := true, signAllowed := false }, rest)
      else if c = signs.positiveSign then ({ collected with signAllowed := false }, rest)
      else (collected, text)
    else (collected, text)
  | [] => (collected, text)

/-- The exponent as a number. -/
def exponentValue (collected : Collected) : Int :=
  let size : Int := Text.digitsValue collected.exponent
  if collected.exponentNegative then -size else size

/-- The number that was collected, with so many thousands given back. There is
none without a digit before the exponent, or without a digit after an exponent
symbol; otherwise `Number.ofDigits` reads the digits. -/
def value? (collected : Collected) (scale : Nat) : Option Float :=
  if collected.integer.isEmpty && collected.fraction.isEmpty then none
  else if collected.hasExponent && collected.exponent.isEmpty then none
  else
    let exponent := if collected.hasExponent then collected.exponentValue else 0
    let size := Number.ofDigits collected.integer collected.fraction exponent
      / Number.powInt 100 collected.percent * Number.powInt 1000 scale
    some (if collected.negative then -size else size)

end Collected

/-- A step of a section. -/
inductive Step where
  /-- A place for a digit; the last of its zone takes all digits. -/
  | digit (placeholder : Placeholder) (zone : Zone) (isLast : Bool)
  | decimalPoint
  | exponent
  | currency
  | percent
  | whitespace
  | literal (text : List Char)
  deriving DecidableEq

/-- All digits at the front of a text. A separator between two of them is passed
over when one is given; `started` says that there was a digit before. -/
def takeDigits (separator : Option Char) (started : Bool) : List Char → List Char × List Char
  | [] => ([], [])
  | c :: rest =>
    if c.isDigit then
      let (digits, after) := takeDigits separator true rest
      (c :: digits, after)
    else if separator = some c && started && rest.head?.any Char.isDigit then
      takeDigits separator true rest
    else ([], c :: rest)

/-- A step for a digit, once it is known that its zone is open. -/
def takePlace (signs : NumberSigns) (grouping : Bool) (placeholder : Placeholder) (zone : Zone)
    (isLast : Bool) (collected : Collected) (text : List Char) : Collected × List Char :=
  if isLast then
    let separator := if grouping && zone = .integer then some signs.groupSeparator else none
    let (digits, rest) := takeDigits separator (!collected.integer.isEmpty) text
    (collected.addDigits zone digits, rest)
  else
    match text with
    | c :: rest =>
      if c.isDigit then (collected.addDigits zone [c], rest)
      else if c = ' ' ∧ placeholder = .space then (collected, rest)
      else (collected, text)
    | [] => (collected, text)

/-- **What a step takes from the front of a text**, if it can be taken. Places
of the fraction are passed over where no point was found. -/
def Step.take? (signs : NumberSigns) (grouping : Bool) (step : Step) (collected : Collected)
    (text : List Char) : Option (Collected × List Char) :=
  match step with
  | .digit placeholder zone isLast =>
    if zone = .fraction ∧ ¬collected.hasPoint then some (collected, text)
    else if zone = .integer ∧ collected.integer.isEmpty then
      let (collected, text) := collected.takeSign signs text
      some (takePlace signs grouping placeholder zone isLast collected text)
    else some (takePlace signs grouping placeholder zone isLast collected text)
  | .decimalPoint =>
    match text with
    | c :: rest =>
      if c = signs.decimalPoint then some ({ collected with hasPoint := true }, rest)
      else some (collected, text)
    | [] => some (collected, text)
  | .exponent =>
    match signs.dropExponent? text with
    | none => none
    | some text =>
      let collected := { collected with hasExponent := true }
      match text with
      | c :: rest =>
        if c = signs.negativeSign then some ({ collected with exponentNegative := true }, rest)
        else if c = signs.positiveSign then some (collected, rest)
        else some (collected, text)
      | [] => some (collected, text)
  | .currency => (Text.dropIgnoringCase? signs.currencySymbol text).map (collected, ·)
  | .percent =>
    match text with
    | c :: rest =>
      if c = signs.percentSymbol then
        some ({ collected with percent := collected.percent + 1 }, rest)
      else none
    | [] => none
  | .whitespace => some (collected, text.dropWhile (· == ' '))
  | .literal expected => (Text.dropIgnoringCase? expected text).map (collected, ·)

/-- What some steps take from the front of a text, one after the other. -/
def takeSteps? (signs : NumberSigns) (grouping : Bool) :
    List Step → Collected → List Char → Option (Collected × List Char)
  | [], collected, text => some (collected, text)
  | step :: steps, collected, text =>
    match step.take? signs grouping collected text with
    | some (collected, text) => takeSteps? signs grouping steps collected text
    | none => none

/-- How many digits before the exponent were collected. -/
def Collected.size (collected : Collected) : Nat :=
  collected.integer.length + collected.fraction.length

/-- The digits taken and the rest are no longer than the text. -/
theorem length_takeDigits (separator : Option Char) (started : Bool) (text : List Char) :
    (takeDigits separator started text).1.length + (takeDigits separator started text).2.length
      ≤ text.length := by
  fun_induction takeDigits separator started text with
  | case1 => simp
  | case2 started c rest hc digits after heq ih => simp [heq] at ih ⊢; omega
  | case3 started c rest hc hsep ih => simp at ih ⊢; omega
  | case4 => simp

/-- A sign is no digit. -/
theorem size_takeSign (signs : NumberSigns) (collected : Collected) (text : List Char) :
    (collected.takeSign signs text).1.size = collected.size
      ∧ (collected.takeSign signs text).2.length ≤ text.length := by
  unfold Collected.takeSign
  grind [Collected.size]

/-- Digits of a zone count at most once. -/
theorem size_addDigits (collected : Collected) (zone : Zone) (digits : List Char) :
    (collected.addDigits zone digits).size ≤ collected.size + digits.length := by
  cases zone <;> simp [Collected.addDigits, Collected.size] <;> omega

/-- A place takes at least as many characters as it collects digits. -/
theorem size_takePlace (signs : NumberSigns) (grouping : Bool) (placeholder : Placeholder)
    (zone : Zone) (isLast : Bool) (collected : Collected) (text : List Char) :
    (takePlace signs grouping placeholder zone isLast collected text).1.size
        + (takePlace signs grouping placeholder zone isLast collected text).2.length
      ≤ collected.size + text.length := by
  unfold takePlace
  split
  · generalize (if grouping && decide (zone = .integer) then some signs.groupSeparator else none)
      = separator
    have hlen := length_takeDigits separator (!collected.integer.isEmpty) text
    have hadd := size_addDigits collected zone
      (takeDigits separator (!collected.integer.isEmpty) text).1
    simp only
    omega
  · split
    · rename_i c rest
      have hadd := size_addDigits collected zone [c]
      split
      · simp at hadd ⊢; omega
      · split <;> simp
    · simp

/-- A step takes at least as many characters as it collects digits. -/
theorem size_take? {signs : NumberSigns} {grouping : Bool} {step : Step}
    {collected collected' : Collected} {text rest : List Char}
    (h : step.take? signs grouping collected text = some (collected', rest)) :
    collected'.size + rest.length ≤ collected.size + text.length := by
  cases step with
  | digit placeholder zone isLast =>
    simp only [Step.take?] at h
    split at h
    · obtain ⟨rfl, rfl⟩ := Prod.mk.inj (Option.some.inj h); simp
    · split at h
      · have hsign := size_takeSign signs collected text
        have hplace := size_takePlace signs grouping placeholder zone isLast
          (collected.takeSign signs text).1 (collected.takeSign signs text).2
        rw [Option.some.inj h] at hplace
        simp only at hplace; omega
      · have hplace := size_takePlace signs grouping placeholder zone isLast collected text
        rwa [Option.some.inj h] at hplace
  | decimalPoint =>
    simp only [Step.take?] at h
    grind [Collected.size]
  | exponent =>
    simp only [Step.take?, NumberSigns.dropExponent?] at h
    split at h
    · simp at h
    · have hlen := Text.length_dropIgnoringCase? ‹_›
      grind [Collected.size]
  | currency =>
    simp only [Step.take?] at h
    obtain ⟨after, hafter, heq⟩ := Option.map_eq_some_iff.1 h
    obtain ⟨rfl, rfl⟩ := Prod.mk.inj heq
    have hlen := Text.length_dropIgnoringCase? hafter
    omega
  | percent =>
    simp only [Step.take?] at h
    grind [Collected.size]
  | whitespace =>
    simp only [Step.take?] at h
    obtain ⟨rfl, rfl⟩ := Prod.mk.inj (Option.some.inj h)
    have hlen := (List.dropWhile_suffix (· == ' ') (l := text)).length_le
    omega
  | literal expected =>
    simp only [Step.take?] at h
    obtain ⟨after, hafter, heq⟩ := Option.map_eq_some_iff.1 h
    obtain ⟨rfl, rfl⟩ := Prod.mk.inj heq
    have hlen := Text.length_dropIgnoringCase? hafter
    omega

/-- Steps take at least as many characters as they collect digits. -/
theorem size_takeSteps? {signs : NumberSigns} {grouping : Bool} {steps : List Step}
    {collected collected' : Collected} {text rest : List Char}
    (h : takeSteps? signs grouping steps collected text = some (collected', rest)) :
    collected'.size + rest.length ≤ collected.size + text.length := by
  induction steps generalizing collected text with
  | nil => simp only [takeSteps?, Option.some.injEq, Prod.mk.injEq] at h; simp [h]
  | cons step steps ih =>
    simp only [takeSteps?] at h
    split at h
    · have := ih h
      have := size_take? ‹_›
      omega
    · simp at h

/-- **A section for reading numbers**: its steps, whether separators group its
digits, and by how many thousands it multiplies. `ofLeaves` makes one of the
leaves of a section. -/
structure NumberCandidate where
  /-- The steps in order. -/
  steps : List Step
  /-- Whether integer digits may be grouped. -/
  grouping : Bool
  /-- How many times the number is multiplied by a thousand. -/
  scale : Nat
  deriving DecidableEq

namespace NumberCandidate

/-- A section on the way from its leaves. -/
structure Progress where
  candidate : NumberCandidate
  zone : Zone
  pending : Nat
  /-- Whether there was a place for an integer digit. -/
  started : Bool

/-- One more step. -/
def Progress.push (progress : Progress) (step : Step) : Progress :=
  { progress with
    candidate := { progress.candidate with steps := progress.candidate.steps ++ [step] } }

/-- The pending separators counted as scaling. -/
def Progress.settle (progress : Progress) : Progress :=
  { progress with
    candidate := { progress.candidate with scale := progress.candidate.scale + progress.pending }
    pending := 0 }

/-- One more leaf. -/
def Progress.leaf (progress : Progress) (kind : LeafKind) (text : List Char) : Progress :=
  match Placeholder.ofLeaf? kind with
  | some placeholder =>
    let progress :=
      if progress.zone = .integer then
        { progress with
          candidate := { progress.candidate with
            grouping := progress.candidate.grouping || (0 < progress.pending && progress.started) }
          pending := 0
          started := true }
      else progress
    progress.push (.digit placeholder progress.zone false)
  | none =>
    match kind with
    | .decimalPoint =>
      if progress.zone = .integer then
        { progress.settle with zone := .fraction }.push .decimalPoint
      else progress.push (.literal text)
    | .groupSeparator =>
      if progress.zone = .exponent then progress.push (.literal text)
      else { progress with pending := progress.pending + 1 }
    | .exponent => { progress.settle with zone := .exponent }.push .exponent
    | .currency => progress.push .currency
    | .percent => progress.push .percent
    | .whitespace => progress.push .whitespace
    | other => progress.push (.literal ((other.literal? text).getD text))

/-- One more node of a section. -/
def Progress.token (progress : Progress) (token : Token) : Progress :=
  match token with
  | .leaf kind text => progress.leaf kind text
  | .parent .. => progress

/-- Whether a step is a digit of a zone. -/
def isDigitOf (zone : Zone) : Step → Bool
  | .digit _ zone' _ => zone' = zone
  | _ => false

/-- Steps with the last digit of each zone marked as such. -/
def markLast : List Step → List Step
  | [] => []
  | .digit placeholder zone isLast :: steps =>
    .digit placeholder zone (isLast || !steps.any (isDigitOf zone)) :: markLast steps
  | step :: steps => step :: markLast steps

/-- The section some leaves make up. -/
def ofLeaves (leaves : List Token) : NumberCandidate :=
  let candidate :=
    (leaves.foldl Progress.token ⟨⟨[], false, 0⟩, .integer, 0, false⟩).settle.candidate
  { candidate with steps := markLast candidate.steps }

/-- Whether a number may end where a rest begins. -/
def isComplete (mode : Mode) (rest : List Char) : Bool :=
  match mode with
  | .value => rest.isEmpty
  | .expression => rest.head?.all endsNumber

/-- The number at the front of a text, and what follows it. -/
def read? (candidate : NumberCandidate) (signs : NumberSigns) (mode : Mode) (text : List Char) :
    Option (Float × List Char) :=
  let (collected, rest) := (Collected.start mode).takeSign signs text
  match takeSteps? signs candidate.grouping candidate.steps collected rest with
  | none => none
  | some (collected, rest) =>
    if isComplete mode rest then (collected.value? candidate.scale).map (·, rest) else none

/-- A number has a digit, so it takes at least one character. -/
theorem length_read? {candidate : NumberCandidate} {signs : NumberSigns}
    {mode : Mode} {text rest : List Char} {value : Float}
    (h : candidate.read? signs mode text = some (value, rest)) : rest.length < text.length := by
  simp only [read?] at h
  split at h
  · simp at h
  · rename_i collected after hsteps
    split at h
    · obtain ⟨number, hnumber, heq⟩ := Option.map_eq_some_iff.1 h
      obtain ⟨rfl, rfl⟩ := Prod.mk.inj heq
      have hsize := size_takeSteps? hsteps
      have hsign := size_takeSign signs (Collected.start mode) text
      have hpos : 0 < collected.size := by
        simp only [Collected.value?] at hnumber
        split at hnumber
        · simp at hnumber
        · rename_i hne
          simp only [Bool.and_eq_true, List.isEmpty_iff, not_and] at hne
          simp only [Collected.size]
          cases hint : collected.integer with
          | nil =>
            have := List.length_pos_iff.2 (hne hint)
            simp; omega
          | cons => simp only [List.length_cons]; omega
      have hstart : (Collected.start mode).size = 0 := rfl
      omega
    · simp at h

end NumberCandidate

/-- A pattern for reading numbers. -/
structure NumberReader where
  /-- The sections that are not empty, in the order they are tried. -/
  candidates : List NumberCandidate
  deriving DecidableEq

namespace NumberReader

/-- The reader of a pattern, if it is for reading numbers. -/
def ofPattern? (pattern : Pattern) : Except PatternError NumberReader :=
  if pattern.kind = .numberParse then
    .ok ⟨pattern.sections.filterMap fun tree =>
      tree.map fun tree => .ofLeaves tree.leaves⟩
  else .error (.wrongKind pattern.kind .numberParser)

/-- **The number at the front of a text**, and what follows it, by the first
section that reads one. Where it may end is a question of the `Mode`. -/
def readFront? (reader : NumberReader) (signs : NumberSigns) (mode : Mode) (text : List Char) :
    Option (Float × List Char) :=
  reader.candidates.findSome? fun candidate => candidate.read? signs mode text

/-- A number takes at least one character. -/
theorem length_readFront? {reader : NumberReader} {signs : NumberSigns}
    {mode : Mode} {text rest : List Char} {value : Float}
    (h : reader.readFront? signs mode text = some (value, rest)) : rest.length < text.length := by
  obtain ⟨candidate, -, hread⟩ := List.exists_of_findSome?_eq_some h
  exact candidate.length_read? hread

/-- The number a whole text is. -/
def read? (reader : NumberReader) (signs : NumberSigns) (text : List Char) : Option Float :=
  (reader.readFront? signs .value text).map Prod.fst

end NumberReader

end Worksheet.Read
