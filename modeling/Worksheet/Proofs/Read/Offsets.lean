import Worksheet.Proofs.Formula.Remainder
import Worksheet.Proofs.Read.Alternatives
import Worksheet.Proofs.Text.Cuts

/-!
# Reading by offsets

Numbers, dates and times are read here by byte offsets, as a reader does that
keeps its place as one and cuts the text there at each look ahead. A cut may
break, and then there is no answer.

From an offset at which a rest of the text stands none does, whatever the
sections are, the signs, the names and the text: each step answers with what it
takes from the rest and the position behind it (`Step.takeAt_eq`,
`takeComponentAt_eq`), where what it leaves stands, and so do the steps and the
sections (`NumberReader.readFrontAt_eq`, `MomentReader.readWholeAt_eq`).
-/

namespace Worksheet.Read

open Pattern Format Text

/-! ## Numbers

The functions here mirror those on rests, one for one, and differ in what they
keep: a whole text and an offset. Each look ahead is a cut of the text, which
can fail. -/

/-- What was taken from the front of a rest, and the position of what follows
it. All of the readers here answer with the `locate` of what is read without
offsets. -/
def locate {α : Type} (whole : List Char) (found : α × List Char) : α × ℕ :=
  (found.1, position whole found.2)

/-- A sign at an offset, if one may still come and is there: the negative one is
tried first. -/
def Collected.takeSignAt (signs : NumberSigns) (whole : List Char) (collected : Collected)
    (offset : ℕ) : Except BrokenCut (Collected × ℕ) := do
  if collected.signAllowed then
    match ← eatAt whole signs.negativeSign offset with
    | some stop => return ({ collected with negative := true, signAllowed := false }, stop)
    | none =>
      match ← eatAt whole signs.positiveSign offset with
      | some stop => return ({ collected with signAllowed := false }, stop)
      | none => return (collected, offset)
  else return (collected, offset)

/-- All digits from an offset on, passing over a separator between two of them.
The text is cut once for each character, and again behind a separator to look
for a digit there. -/
def takeDigitsAt (whole : List Char) (separator : Option Char) (started : Bool) (offset : ℕ) :
    Except BrokenCut (List Char × ℕ) :=
  match _h : cutFrom whole offset with
  | .error e => .error e
  | .ok [] => .ok ([], offset)
  | .ok (c :: rest) =>
    if c.isDigit then
      (takeDigitsAt whole separator true (offset + c.utf8Size)).map fun (digits, stop) =>
        (c :: digits, stop)
    else if separator = some c && started then
      match cutFrom (c :: rest) c.utf8Size with
      | .error e => .error e
      | .ok after =>
        if after.head?.any Char.isDigit then
          takeDigitsAt whole separator true (offset + c.utf8Size)
        else .ok ([], offset)
    else .ok ([], offset)
termination_by byteLength whole - offset
decreasing_by
  all_goals
    have hlt := (StandsAt.of_cutFrom _h).lt_byteLength
    have hpos := c.utf8Size_pos
    omega

/-- A place for a digit, once it is known that its zone is open. The last place
of a zone takes all there are. -/
def takePlaceAt (signs : NumberSigns) (grouping : Bool) (placeholder : Placeholder) (zone : Zone)
    (isLast : Bool) (whole : List Char) (collected : Collected) (offset : ℕ) :
    Except BrokenCut (Collected × ℕ) := do
  if isLast then
    let separator := if grouping && zone = .integer then some signs.groupSeparator else none
    let (digits, stop) ← takeDigitsAt whole separator (!collected.integer.isEmpty) offset
    return (collected.addDigits zone digits, stop)
  else
    match ← peekAt whole offset with
    | some c =>
      if c.isDigit then return (collected.addDigits zone [c], offset + c.utf8Size)
      else if c = ' ' ∧ placeholder = .space then return (collected, offset + c.utf8Size)
      else return (collected, offset)
    | none => return (collected, offset)

/-- All spaces from an offset on, one cut for each. -/
def skipSpacesAt (whole : List Char) (offset : ℕ) : Except BrokenCut ℕ :=
  match _h : cutFrom whole offset with
  | .error e => .error e
  | .ok [] => .ok offset
  | .ok (c :: _) => if c = ' ' then skipSpacesAt whole (offset + c.utf8Size) else .ok offset
termination_by byteLength whole - offset
decreasing_by
  have hlt := (StandsAt.of_cutFrom _h).lt_byteLength
  have hpos := c.utf8Size_pos
  omega

/-- What a step takes at an offset, if it can be taken. It goes through the
cases of `Step.take?`. -/
def Step.takeAt (signs : NumberSigns) (grouping : Bool) (whole : List Char) (step : Step)
    (collected : Collected) (offset : ℕ) : Except BrokenCut (Option (Collected × ℕ)) := do
  match step with
  | .digit placeholder zone isLast =>
    if zone = .fraction ∧ ¬collected.hasPoint then return some (collected, offset)
    else if zone = .integer ∧ collected.integer.isEmpty then
      let (collected, offset) ← collected.takeSignAt signs whole offset
      return some (← takePlaceAt signs grouping placeholder zone isLast whole collected offset)
    else
      return some (← takePlaceAt signs grouping placeholder zone isLast whole collected offset)
  | .decimalPoint =>
    match ← eatAt whole signs.decimalPoint offset with
    | some stop => return some ({ collected with hasPoint := true }, stop)
    | none => return some (collected, offset)
  | .exponent =>
    match ← eatTextAt whole signs.exponentSymbol offset with
    | none => return none
    | some offset =>
      let collected := { collected with hasExponent := true }
      match ← eatAt whole signs.negativeSign offset with
      | some stop => return some ({ collected with exponentNegative := true }, stop)
      | none =>
        match ← eatAt whole signs.positiveSign offset with
        | some stop => return some (collected, stop)
        | none => return some (collected, offset)
  | .currency => return (← eatTextAt whole signs.currencySymbol offset).map (collected, ·)
  | .percent =>
    return (← eatAt whole signs.percentSymbol offset).map
      ({ collected with percent := collected.percent + 1 }, ·)
  | .whitespace => return some (collected, ← skipSpacesAt whole offset)
  | .literal expected => return (← eatTextAt whole expected offset).map (collected, ·)

def takeStepsAt (signs : NumberSigns) (grouping : Bool) (whole : List Char) :
    List Step → Collected → ℕ → Except BrokenCut (Option (Collected × ℕ))
  | [], collected, offset => return some (collected, offset)
  | step :: steps, collected, offset => do
    match ← step.takeAt signs grouping whole collected offset with
    | some (collected, offset) => takeStepsAt signs grouping whole steps collected offset
    | none => return none

def isCompleteAt (mode : Mode) (whole : List Char) (offset : ℕ) : Except BrokenCut Bool :=
  match mode with
  | .value => return isAtEnd whole offset
  | .expression => return (← peekAt whole offset).all endsNumber

/-- The number at an offset, and the offset behind it, by one section. -/
def NumberCandidate.readAt (candidate : NumberCandidate) (signs : NumberSigns) (mode : Mode)
    (whole : List Char) (offset : ℕ) : Except BrokenCut (Option (Float × ℕ)) := do
  let (collected, offset) ← (Collected.start mode).takeSignAt signs whole offset
  match ← takeStepsAt signs candidate.grouping whole candidate.steps collected offset with
  | none => return none
  | some (collected, stop) =>
    if ← isCompleteAt mode whole stop then return (collected.value? candidate.scale).map (·, stop)
    else return none

def NumberReader.readFrontAt (reader : NumberReader) (signs : NumberSigns) (mode : Mode)
    (whole : List Char) (offset : ℕ) : Except BrokenCut (Option (Float × ℕ)) :=
  reader.candidates.findSomeM? fun candidate => candidate.readAt signs mode whole offset

variable {signs : NumberSigns} {whole text : List Char} {offset : ℕ} {collected : Collected}

/-! ### No cut breaks

Each lemma has the same form: at an offset where a rest stands, the function
answers with what is read from the rest. The invariant is that what a step
leaves stands at an offset again. -/

theorem Collected.takeSignAt_eq (h : StandsAt whole offset text) :
    collected.takeSignAt signs whole offset
      = .ok (locate whole (collected.takeSign signs text)) := by
  cases text with
  | nil =>
    rw [takeSignAt, h.eatAt_nil, h.eatAt_nil, takeSign, locate, h.position_eq]
    split <;> rfl
  | cons c rest =>
    rw [takeSignAt, h.eatAt_cons, h.eatAt_cons, takeSign]
    split
    · by_cases hnegative : c = signs.negativeSign
      · rw [if_pos hnegative, if_pos hnegative]
        rfl
      · rw [if_neg hnegative, if_neg hnegative]
        by_cases hpositive : c = signs.positiveSign
        · rw [if_pos hpositive, if_pos hpositive]
          rfl
        · rw [if_neg hpositive, if_neg hpositive, locate, h.position_eq]
          rfl
    · rw [locate, h.position_eq]
      rfl

theorem takeDigitsAt_nil {separator : Option Char} {started : Bool} (h : StandsAt whole offset []) :
    takeDigitsAt whole separator started offset = .ok ([], offset) := by
  rw [takeDigitsAt]
  split <;> rename_i hcut <;> cases h.cutFrom_eq.symm.trans hcut
  rfl

theorem takeDigitsAt_cons {separator : Option Char} {started : Bool} {c : Char} {rest : List Char}
    (h : StandsAt whole offset (c :: rest)) :
    takeDigitsAt whole separator started offset
      = if c.isDigit then
          (takeDigitsAt whole separator true (offset + c.utf8Size)).map fun (digits, stop) =>
            (c :: digits, stop)
        else if separator = some c && started && rest.head?.any Char.isDigit then
          takeDigitsAt whole separator true (offset + c.utf8Size)
        else .ok ([], offset) := by
  have hafter : StandsAt (c :: rest) c.utf8Size rest := by
    have hcons := (standsAt_zero (c :: rest)).cons
    rwa [Nat.zero_add] at hcons
  rw [takeDigitsAt]
  split <;> rename_i hcut <;> cases h.cutFrom_eq.symm.trans hcut
  rw [hafter.cutFrom_eq]
  cases separator = some c && started <;> rfl

theorem takeDigitsAt_eq (separator : Option Char) (started : Bool)
    (h : StandsAt whole offset text) :
    takeDigitsAt whole separator started offset
      = .ok (locate whole (takeDigits separator started text)) := by
  induction text generalizing started offset with
  | nil => rw [takeDigitsAt_nil h, takeDigits, locate, h.position_eq]
  | cons c rest ih =>
    rw [takeDigitsAt_cons h, ih true h.cons, takeDigits]
    split
    · rfl
    · split
      · rfl
      · rw [locate, h.position_eq]

theorem takePlaceAt_eq (grouping : Bool) (placeholder : Placeholder) (zone : Zone) (isLast : Bool)
    (h : StandsAt whole offset text) :
    takePlaceAt signs grouping placeholder zone isLast whole collected offset
      = .ok (locate whole (takePlace signs grouping placeholder zone isLast collected text)) := by
  unfold takePlaceAt takePlace
  split
  · simp only [takeDigitsAt_eq _ _ h]
    rfl
  · rw [h.peekAt_eq]
    cases text with
    | nil =>
      rw [locate, h.position_eq]
      rfl
    | cons c rest =>
      show ite _ _ _ = Except.ok (locate whole (ite _ _ _))
      split
      · rw [locate, h.cons.position_eq]
        rfl
      · split
        · rw [locate, h.cons.position_eq]
          rfl
        · rw [locate, h.position_eq]
          rfl

theorem skipSpacesAt_eq (h : StandsAt whole offset text) :
    skipSpacesAt whole offset = .ok (position whole (text.dropWhile (· == ' '))) := by
  induction text generalizing offset with
  | nil =>
    rw [skipSpacesAt]
    split <;> rename_i hcut <;> cases h.cutFrom_eq.symm.trans hcut
    rw [List.dropWhile_nil, h.position_eq]
  | cons c rest ih =>
    rw [skipSpacesAt]
    split <;> rename_i hcut <;> cases h.cutFrom_eq.symm.trans hcut
    rw [ih h.cons, List.dropWhile_cons]
    by_cases hc : c = ' '
    · rw [if_pos hc, if_pos (beq_iff_eq.2 hc)]
    · rw [if_neg hc, if_neg (mt beq_iff_eq.1 hc), h.position_eq]

/-- A place for a digit. Before the first digit of the whole part a sign may be
taken: what it leaves stands at an offset again. -/
theorem Step.takeAt_digit (grouping : Bool) (placeholder : Placeholder) (zone : Zone)
    (isLast : Bool) (h : StandsAt whole offset text) :
    (Step.digit placeholder zone isLast).takeAt signs grouping whole collected offset
      = .ok (((Step.digit placeholder zone isLast).take? signs grouping collected text).map
          (locate whole)) := by
  rw [takeAt, take?]
  split
  · rw [Option.map_some, locate, h.position_eq]
    rfl
  · split
    · have hsign := h.suffix (Collected.suffix_takeSign signs collected text)
      rw [Collected.takeSignAt_eq h]
      show (takePlaceAt signs grouping placeholder zone isLast whole
        (collected.takeSign signs text).1 (position whole (collected.takeSign signs text).2)
          >>= _) = _
      rw [takePlaceAt_eq _ _ _ _ hsign]
      rfl
    · rw [takePlaceAt_eq _ _ _ _ h]
      rfl

/-- An exponent. Its sign is looked for twice behind the symbol, which leaves a
rest that stands there; at the end of the text both looks find nothing. -/
theorem Step.takeAt_exponent (grouping : Bool) (h : StandsAt whole offset text) :
    Step.exponent.takeAt signs grouping whole collected offset
      = .ok ((Step.exponent.take? signs grouping collected text).map (locate whole)) := by
  rw [takeAt, take?, h.eatTextAt_eq, NumberSigns.dropExponent?]
  cases hdrop : dropIgnoringCase? signs.exponentSymbol text with
  | none => rfl
  | some after =>
    have hafter := h.suffix (suffix_of_dropIgnoringCase? hdrop)
    show (eatAt whole signs.negativeSign (position whole after) >>= _) = _
    cases after with
    | nil =>
      rw [hafter.eatAt_nil]
      show (eatAt whole signs.positiveSign (position whole []) >>= _) = _
      rw [hafter.eatAt_nil]
      rfl
    | cons c rest =>
      rw [hafter.eatAt_cons]
      by_cases hnegative : c = signs.negativeSign
      · rw [if_pos hnegative]
        simp only [if_pos hnegative]
        rfl
      · rw [if_neg hnegative]
        show (eatAt whole signs.positiveSign (position whole (c :: rest)) >>= _) = _
        rw [hafter.eatAt_cons]
        simp only [if_neg hnegative]
        by_cases hpositive : c = signs.positiveSign
        · simp only [if_pos hpositive]
          rfl
        · simp only [if_neg hpositive]
          rfl

/-- **A step breaks no cut**, and takes what it takes from the rest. What is
taken ends between two characters, so the next step is at a position too. -/
theorem Step.takeAt_eq (grouping : Bool) (step : Step) (h : StandsAt whole offset text) :
    step.takeAt signs grouping whole collected offset
      = .ok ((step.take? signs grouping collected text).map (locate whole)) := by
  cases step with
  | digit placeholder zone isLast => exact takeAt_digit grouping placeholder zone isLast h
  | decimalPoint =>
    cases text with
    | nil =>
      rw [takeAt, take?, h.eatAt_nil, Option.map_some, locate, h.position_eq]
      rfl
    | cons c rest =>
      rw [takeAt, take?, h.eatAt_cons]
      by_cases hc : c = signs.decimalPoint
      · rw [if_pos hc, if_pos hc]
        rfl
      · rw [if_neg hc, if_neg hc, Option.map_some, locate, h.position_eq]
        rfl
  | exponent => exact takeAt_exponent grouping h
  | currency =>
    rw [takeAt, take?, h.eatTextAt_eq]
    cases dropIgnoringCase? signs.currencySymbol text <;> rfl
  | percent =>
    cases text with
    | nil =>
      rw [takeAt, take?, h.eatAt_nil]
      rfl
    | cons c rest =>
      rw [takeAt, take?, h.eatAt_cons]
      by_cases hc : c = signs.percentSymbol
      · rw [if_pos hc, if_pos hc]
        rfl
      · rw [if_neg hc, if_neg hc]
        rfl
  | whitespace =>
    rw [takeAt, take?, skipSpacesAt_eq h]
    rfl
  | literal expected =>
    rw [takeAt, take?, h.eatTextAt_eq]
    cases dropIgnoringCase? expected text <;> rfl

theorem takeStepsAt_eq (grouping : Bool) (steps : List Step) (h : StandsAt whole offset text) :
    takeStepsAt signs grouping whole steps collected offset
      = .ok ((takeSteps? signs grouping steps collected text).map (locate whole)) := by
  induction steps generalizing collected text offset with
  | nil =>
    rw [takeStepsAt, takeSteps?, Option.map_some, locate, h.position_eq]
    rfl
  | cons step steps ih =>
    rw [takeStepsAt, takeSteps?, step.takeAt_eq grouping h]
    cases htake : step.take? signs grouping collected text with
    | none => rfl
    | some found =>
      obtain ⟨collected, rest⟩ := found
      exact ih (h.suffix (Step.suffix_of_take? htake))

theorem isCompleteAt_eq (mode : Mode) (h : StandsAt whole offset text) :
    isCompleteAt mode whole offset = .ok (NumberCandidate.isComplete mode text) := by
  cases mode with
  | value => exact congrArg Except.ok h.isAtEnd_eq
  | expression =>
    rw [isCompleteAt, h.peekAt_eq]
    rfl

theorem NumberCandidate.readAt_eq (candidate : NumberCandidate) (mode : Mode)
    (h : StandsAt whole offset text) :
    candidate.readAt signs mode whole offset
      = .ok ((candidate.read? signs mode text).map (locate whole)) := by
  have hsuffix := Collected.suffix_takeSign signs (.start mode) text
  rw [readAt, read?, Collected.takeSignAt_eq h]
  generalize (Collected.start mode).takeSign signs text = signed at hsuffix ⊢
  obtain ⟨collected, input⟩ := signed
  have hsign := h.suffix hsuffix
  show (takeStepsAt signs candidate.grouping whole candidate.steps collected (position whole input)
    >>= _) = _
  rw [takeStepsAt_eq _ _ hsign]
  dsimp only
  cases htake : takeSteps? signs candidate.grouping candidate.steps collected input with
  | none => rfl
  | some found =>
    obtain ⟨collected, rest⟩ := found
    show (isCompleteAt mode whole (position whole rest) >>= _) = _
    rw [isCompleteAt_eq mode (hsign.suffix (suffix_of_takeSteps? htake))]
    show ite _ _ _ = Except.ok (Option.map _ (ite _ _ _))
    split
    · cases collected.value? candidate.scale <;> rfl
    · rfl

theorem findSomeM?_eq {ε α β : Type} {f : α → Except ε (Option β)} {g : α → Option β}
    (h : ∀ a, f a = .ok (g a)) (list : List α) : list.findSomeM? f = .ok (list.findSome? g) := by
  induction list with
  | nil => rfl
  | cons a list ih =>
    rw [List.findSomeM?, h, List.findSome?_cons, ih]
    cases g a <;> rfl

/-- **A number is read without breaking a cut**, and its end is a position of
the text. -/
theorem NumberReader.readFrontAt_eq (reader : NumberReader) (mode : Mode)
    (h : StandsAt whole offset text) :
    reader.readFrontAt signs mode whole offset = .ok (reader.readAt? signs mode whole offset) := by
  have hread : reader.readAt? signs mode whole offset
      = (reader.readFront? signs mode text).map (locate whole) := by
    rw [readAt?, show fromByte? offset whole = some text from h]
    rfl
  rw [hread, readFrontAt, findSomeM?_eq fun candidate => candidate.readAt_eq mode h, readFront?,
    List.map_findSome?]
  rfl

/-! ## Dates and times

The same is done for fields. In numbers and fractions bytes are counted instead
of characters, so digits have to be ASCII (`isAscii_isDigit`). -/

def takeNumberAt (low high : ℕ) (whole : List Char) (offset : ℕ) :
    Except BrokenCut (Option (ℕ × ℕ)) := do
  let rest ← cutFrom whole offset
  let length := runLength Char.isDigit high rest
  if length < low then return none
  else return some (digitsValue (← cutTo rest length), offset + length)

def takeFractionAt (whole : List Char) (offset : ℕ) : Except BrokenCut (Option (ℕ × ℕ)) := do
  let rest ← cutFrom whole offset
  let length := runLength Char.isDigit (byteLength rest) rest
  if length = 0 then return none
  else
    let kept ← cutTo rest (min length 9)
    return some (digitsValue kept * 10 ^ (9 - byteLength kept), offset + length)

def dropNameAt (names : List (List Char)) (whole : List Char) (offset : ℕ) :
    Except BrokenCut (Option (ℕ × ℕ)) :=
  names.zipIdx.findSomeM? fun (name, index) =>
    return (← eatTextAt whole name offset).map (index, ·)

/-- The first of some names, or else of some others, at an offset: long names
before short ones. -/
def dropEitherAt (names others : List (List Char)) (whole : List Char) (offset : ℕ) :
    Except BrokenCut (Option (ℕ × ℕ)) := do
  match ← dropNameAt names whole offset with
  | some found => return some found
  | none => dropNameAt others whole offset

/-- The field a component takes at an offset, by the cases of `takeComponent?`. -/
def takeComponentAt (locale : Locale) (whole : List Char) (component : Component) (fields : Fields)
    (offset : ℕ) : Except BrokenCut (Option (Fields × ℕ)) := do
  match component with
  | .day count =>
    if count ≤ 2 then
      return (← takeNumberAt 1 2 whole offset).map fun (day, stop) =>
        ({ fields with day := some day }, stop)
    else
      return (← dropEitherAt locale.dates.weekdayNames locale.dates.weekdayAbbreviations whole
        offset).map fun (_, stop) => (fields, stop)
  | .month count =>
    if count ≤ 2 then
      return (← takeNumberAt 1 2 whole offset).map fun (month, stop) =>
        ({ fields with month := some month }, stop)
    else
      return (← dropEitherAt locale.dates.monthNames locale.dates.monthAbbreviations whole
        offset).map fun (index, stop) => ({ fields with month := some (index + 1) }, stop)
  | .year count =>
    if count ≤ 2 then
      return (← takeNumberAt 2 2 whole offset).map fun (year, stop) =>
        ({ fields with year := some (locale.dates.expandYear year) }, stop)
    else
      return (← takeNumberAt 4 4 whole offset).map fun (year, stop) =>
        ({ fields with year := some (year : ℤ) }, stop)
  | .hour _ =>
    return (← takeNumberAt 1 2 whole offset).map fun (hour, stop) => ({ fields with hour }, stop)
  | .minute _ =>
    return (← takeNumberAt 1 2 whole offset).map fun (minute, stop) =>
      ({ fields with minute }, stop)
  | .second _ =>
    return (← takeNumberAt 1 2 whole offset).map fun (second, stop) =>
      ({ fields with second }, stop)
  | .secondFraction _ =>
    match ← eatAt whole locale.numbers.decimalPoint offset with
    | some offset =>
      return (← takeFractionAt whole offset).map fun (nanos, stop) => ({ fields with nanos }, stop)
    | none => return some (fields, offset)
  | .amPm marker =>
    match ← eatTextAt whole (halfMark marker locale.dates.pm) offset with
    | some stop => return some ({ fields with afternoon := some true }, stop)
    | none =>
      return (← eatTextAt whole (halfMark marker locale.dates.am) offset).map fun stop =>
        ({ fields with afternoon := some false }, stop)
  | .whitespace _ =>
    match ← eatAt whole ' ' offset with
    | some offset => return some (fields, ← skipSpacesAt whole offset)
    | none => return none
  | .literal literal => return (← eatTextAt whole literal offset).map (fields, ·)

def takeComponentsAt (locale : Locale) (whole : List Char) :
    List Component → Fields → ℕ → Except BrokenCut (Option (Fields × ℕ))
  | [], fields, offset => return some (fields, offset)
  | component :: components, fields, offset => do
    match ← takeComponentAt locale whole component fields offset with
    | some (fields, stop) => takeComponentsAt locale whole components fields stop
    | none => return none

/-- The value a whole text is, by the first section that reads one up to the
end. -/
def MomentReader.readWholeAt (reader : MomentReader) (locale : Locale) (whole : List Char) :
    Except BrokenCut (Option Value) :=
  reader.candidates.findSomeM? fun components => do
    match ← takeComponentsAt locale whole components .blank 0 with
    | some (fields, stop) =>
      return if isAtEnd whole stop then reader.kind.value? fields else none
    | none => return none

variable {locale : Locale} {fields : Fields}

theorem isAscii_isDigit : IsAscii Char.isDigit := fun c hc => by
  have hbounds : 48 ≤ c.toNat ∧ c.toNat ≤ 57 := Char.isDigit_iff_toNat.1 hc
  omega

theorem takeNumberAt_eq (low high : ℕ) (h : StandsAt whole offset text) :
    takeNumberAt low high whole offset
      = .ok ((takeNumber? low high text).map (locate whole)) := by
  have hrun : (text.take high).takeWhile Char.isDigit <+: text :=
    (List.takeWhile_prefix _).trans (List.take_prefix _ _)
  have hone : ∀ c ∈ (text.take high).takeWhile Char.isDigit, c.toNat < 128 := fun c hc =>
    isAscii_isDigit c (List.mem_takeWhile_imp hc)
  rw [takeNumberAt, takeNumber?, h.cutFrom_eq]
  show ite _ _ _ = Except.ok (Option.map _ (ite _ _ _))
  rw [isAscii_isDigit.runLength_eq]
  split
  · rfl
  · rw [cutTo_length hrun hone, Option.map_some, locate, h.position_drop hrun hone]
    rfl

theorem takeFractionAt_eq (h : StandsAt whole offset text) :
    takeFractionAt whole offset = .ok ((takeFraction? text).map (locate whole)) := by
  have hrun : text.takeWhile Char.isDigit <+: text := List.takeWhile_prefix _
  -- digits are of one byte each, so nine characters are nine bytes
  have hone : ∀ c ∈ text.takeWhile Char.isDigit, c.toNat < 128 := fun c hc =>
    isAscii_isDigit c (List.mem_takeWhile_imp hc)
  have hlength : runLength Char.isDigit (byteLength text) text
      = (text.takeWhile Char.isDigit).length := by
    rw [isAscii_isDigit.runLength_eq, List.take_of_length_le (length_le_byteLength text)]
  have hkept := cutTo_length ((List.take_prefix 9 _).trans hrun) fun c hc =>
    hone c (List.mem_of_mem_take hc)
  have hkeptLength := byteLength_of_all fun c (hc : c ∈ (text.takeWhile Char.isDigit).take 9) =>
    hone c (List.mem_of_mem_take hc)
  have hstop : position whole (text.dropWhile Char.isDigit)
      = offset + (text.takeWhile Char.isDigit).length := by
    rw [← List.takeWhile_append_dropWhile (p := Char.isDigit) (l := text)] at h
    rw [h.position_append_eq, byteLength_of_all hone]
  rw [takeFractionAt, takeFraction?, h.cutFrom_eq]
  show ite _ _ _
    = Except.ok (Option.map _ (ite ((text.takeWhile Char.isDigit).isEmpty = true) _ _))
  rw [hlength]
  by_cases hnone : text.takeWhile Char.isDigit = []
  · rw [if_pos (List.length_eq_zero_iff.2 hnone), if_pos (List.isEmpty_iff.2 hnone)]
    rfl
  · rw [if_neg (mt List.length_eq_zero_iff.1 hnone), if_neg (mt List.isEmpty_iff.1 hnone),
      Nat.min_comm, ← List.length_take, hkept]
    show Except.ok (some (_ * 10 ^ (9 - byteLength _), _)) = Except.ok (some (_, _))
    rw [hkeptLength, ← hstop]

theorem dropNameAt_eq (names : List (List Char)) (h : StandsAt whole offset text) :
    dropNameAt names whole offset
      = .ok ((DateNames.dropName? names text).map (locate whole)) := by
  rw [dropNameAt, DateNames.dropName?, List.map_findSome?]
  refine findSomeM?_eq (fun (name, index) => ?_) names.zipIdx
  show (eatTextAt whole name offset >>= _) = _
  rw [h.eatTextAt_eq]
  show _ = Except.ok (Option.map _ (Option.map _ (dropIgnoringCase? name text)))
  cases dropIgnoringCase? name text <;> rfl

theorem dropEitherAt_eq (names others : List (List Char)) (h : StandsAt whole offset text) :
    dropEitherAt names others whole offset
      = .ok (((DateNames.dropName? names text).or (DateNames.dropName? others text)).map
          (locate whole)) := by
  rw [dropEitherAt, dropNameAt_eq _ h, dropNameAt_eq _ h]
  cases DateNames.dropName? names text <;> rfl

theorem suffix_of_dropName? {names : List (List Char)} {index : ℕ} {rest : List Char}
    (h : DateNames.dropName? names text = some (index, rest)) : rest <:+ text := by
  obtain ⟨⟨name, index⟩, -, hname⟩ := List.exists_of_findSome?_eq_some h
  obtain ⟨after, hafter, heq⟩ := Option.map_eq_some_iff.1 hname
  exact (Prod.mk.inj heq).2 ▸ suffix_of_dropIgnoringCase? hafter

theorem suffix_of_dropEither? {names others : List (List Char)} {index : ℕ} {rest : List Char}
    (h : (DateNames.dropName? names text).or (DateNames.dropName? others text)
      = some (index, rest)) : rest <:+ text := by
  rcases Option.or_eq_some_iff.1 h with h | ⟨-, h⟩ <;> exact suffix_of_dropName? h

/-- A fraction of a second. It may be missing, and where there is a point its
digits stand at an offset behind it. -/
theorem takeComponentAt_secondFraction (count : ℕ) (h : StandsAt whole offset text) :
    takeComponentAt locale whole (.secondFraction count) fields offset
      = .ok ((takeComponent? locale (.secondFraction count) fields text).map (locate whole)) := by
  cases text with
  | nil =>
    rw [takeComponentAt, takeComponent?, h.eatAt_nil, Option.map_some, locate, h.position_eq]
    rfl
  | cons c rest =>
    rw [takeComponentAt, takeComponent?, h.eatAt_cons]
    by_cases hc : c = locale.numbers.decimalPoint
    · rw [if_pos hc, if_pos hc]
      show (takeFractionAt whole (position whole rest) >>= _) = _
      rw [takeFractionAt_eq (h.suffix (List.suffix_cons c rest))]
      cases takeFraction? rest <;> rfl
    · rw [if_neg hc, if_neg hc, Option.map_some, locate, h.position_eq]
      rfl

/-- Spaces, of which there has to be one. -/
theorem takeComponentAt_whitespace (spaces : List Char) (h : StandsAt whole offset text) :
    takeComponentAt locale whole (.whitespace spaces) fields offset
      = .ok ((takeComponent? locale (.whitespace spaces) fields text).map (locate whole)) := by
  cases text with
  | nil =>
    rw [takeComponentAt, takeComponent?, h.eatAt_nil]
    rfl
  | cons c rest =>
    rw [takeComponentAt, takeComponent?, h.eatAt_cons]
    by_cases hc : c = ' '
    · rw [if_pos hc, if_pos hc]
      show (skipSpacesAt whole (position whole rest) >>= _) = _
      rw [skipSpacesAt_eq (h.suffix (List.suffix_cons c rest))]
      rfl
    · rw [if_neg hc, if_neg hc]
      rfl

/-- **A component breaks no cut**, and takes what it takes from the rest. Digits
are counted in bytes here, which does no harm as they have one each. -/
theorem takeComponentAt_eq (component : Component) (h : StandsAt whole offset text) :
    takeComponentAt locale whole component fields offset
      = .ok ((takeComponent? locale component fields text).map (locate whole)) := by
  cases component with
  | day count =>
    rw [takeComponentAt, takeComponent?]
    split
    · rw [takeNumberAt_eq _ _ h]
      cases takeNumber? 1 2 text <;> rfl
    · rw [dropEitherAt_eq _ _ h, DateNames.dropWeekday?]
      cases (DateNames.dropName? _ text).or (DateNames.dropName? _ text) <;> rfl
  | month count =>
    rw [takeComponentAt, takeComponent?]
    split
    · rw [takeNumberAt_eq _ _ h]
      cases takeNumber? 1 2 text <;> rfl
    · rw [dropEitherAt_eq _ _ h, DateNames.dropMonth?]
      cases (DateNames.dropName? _ text).or (DateNames.dropName? _ text) <;> rfl
  | year count =>
    rw [takeComponentAt, takeComponent?]
    split
    · rw [takeNumberAt_eq _ _ h]
      cases takeNumber? 2 2 text <;> rfl
    · rw [takeNumberAt_eq _ _ h]
      cases takeNumber? 4 4 text <;> rfl
  | hour | minute | second =>
    rw [takeComponentAt, takeComponent?, takeNumberAt_eq _ _ h]
    cases takeNumber? 1 2 text <;> rfl
  | secondFraction count => exact takeComponentAt_secondFraction count h
  | amPm marker =>
    rw [takeComponentAt, takeComponent?, h.eatTextAt_eq]
    -- the mark of the afternoon is tried first, at the same offset
    cases dropIgnoringCase? (halfMark marker locale.dates.pm) text with
    | some rest => rfl
    | none =>
      show (eatTextAt whole (halfMark marker locale.dates.am) offset >>= _) = _
      rw [h.eatTextAt_eq]
      cases dropIgnoringCase? (halfMark marker locale.dates.am) text <;> rfl
  | whitespace spaces => exact takeComponentAt_whitespace spaces h
  | literal literal =>
    rw [takeComponentAt, takeComponent?, h.eatTextAt_eq]
    cases dropIgnoringCase? literal text <;> rfl

theorem suffix_of_takeNumber? {low high value : ℕ} {rest : List Char}
    (h : takeNumber? low high text = some (value, rest)) : rest <:+ text := by
  rw [takeNumber?] at h
  split at h
  · cases h
  · rw [← (Prod.mk.inj (Option.some.inj h)).2]
    exact List.drop_suffix _ _

theorem suffix_of_takeFraction? {value : ℕ} {rest : List Char}
    (h : takeFraction? text = some (value, rest)) : rest <:+ text := by
  rw [takeFraction?] at h
  dsimp only at h
  split at h
  · cases h
  · rw [← (Prod.mk.inj (Option.some.inj h)).2]
    exact List.dropWhile_suffix _

theorem suffix_of_map {α β : Type} {found : Option (α × List Char)}
    {put : α × List Char → β × List Char} {value : β} {rest : List Char}
    (h : found.map put = some (value, rest)) (hput : ∀ a, (put a).2 = a.2)
    (hfound : ∀ {a after}, found = some (a, after) → after <:+ text) : rest <:+ text := by
  obtain ⟨⟨a, after⟩, hafter, heq⟩ := Option.map_eq_some_iff.1 h
  obtain rfl : after = rest := (hput _).symm.trans (congrArg Prod.snd heq)
  exact hfound hafter

theorem suffix_of_takeComponent? {component : Component} {fields' : Fields} {rest : List Char}
    (h : takeComponent? locale component fields text = some (fields', rest)) : rest <:+ text := by
  cases component with
  | day count =>
    rw [takeComponent?] at h
    split at h
    · exact suffix_of_map h (fun _ => rfl) suffix_of_takeNumber?
    · obtain ⟨after, hafter, heq⟩ := Option.map_eq_some_iff.1 h
      obtain ⟨⟨index, after⟩, hfound, rfl⟩ := Option.map_eq_some_iff.1 hafter
      exact (Prod.mk.inj heq).2 ▸ suffix_of_dropEither? hfound
  | month count =>
    rw [takeComponent?] at h
    split at h
    · exact suffix_of_map h (fun _ => rfl) suffix_of_takeNumber?
    · exact suffix_of_map h (fun _ => rfl) fun hmonth =>
        suffix_of_map hmonth (fun _ => rfl) suffix_of_dropEither?
  | year count =>
    rw [takeComponent?] at h
    split at h <;> exact suffix_of_map h (fun _ => rfl) suffix_of_takeNumber?
  | hour | minute | second =>
    rw [takeComponent?] at h
    exact suffix_of_map h (fun _ => rfl) suffix_of_takeNumber?
  | secondFraction =>
    cases text with
    | nil =>
      obtain ⟨-, rfl⟩ := Prod.mk.inj (Option.some.inj h)
      exact List.suffix_refl _
    | cons c rest =>
      rw [takeComponent?] at h
      split at h
      · exact (suffix_of_map h (fun _ => rfl) suffix_of_takeFraction?).trans
          (List.suffix_cons c rest)
      · obtain ⟨-, rfl⟩ := Prod.mk.inj (Option.some.inj h)
        exact List.suffix_refl _
  | amPm marker =>
    rw [takeComponent?] at h
    split at h
    · rename_i after hafter
      obtain ⟨-, rfl⟩ := Prod.mk.inj (Option.some.inj h)
      exact suffix_of_dropIgnoringCase? hafter
    · exact suffix_of_map_dropIgnoringCase? h
  | whitespace =>
    cases text with
    | nil => cases h
    | cons c rest =>
      rw [takeComponent?] at h
      split at h
      · obtain ⟨-, rfl⟩ := Prod.mk.inj (Option.some.inj h)
        exact (List.dropWhile_suffix _).trans (List.suffix_cons c rest)
      · cases h
  | literal literal => exact suffix_of_map_dropIgnoringCase? h

theorem takeComponentsAt_eq (components : List Component) (h : StandsAt whole offset text) :
    takeComponentsAt locale whole components fields offset
      = .ok ((takeComponents? locale components fields text).map (locate whole)) := by
  induction components generalizing fields text offset with
  | nil =>
    rw [takeComponentsAt, takeComponents?, Option.map_some, locate, h.position_eq]
    rfl
  | cons component components ih =>
    rw [takeComponentsAt, takeComponents?, takeComponentAt_eq component h]
    cases htake : takeComponent? locale component fields text with
    | none => rfl
    | some found =>
      obtain ⟨fields, rest⟩ := found
      exact ih (h.suffix (suffix_of_takeComponent? htake))

theorem suffix_of_takeComponents? {components : List Component} {fields' : Fields}
    {rest : List Char} (h : takeComponents? locale components fields text = some (fields', rest)) :
    rest <:+ text := by
  induction components generalizing fields text with
  | nil =>
    obtain ⟨-, rfl⟩ := Prod.mk.inj (Option.some.inj h)
    exact List.suffix_refl _
  | cons component components ih =>
    rw [takeComponents?] at h
    split at h
    · rename_i htake
      exact (ih h).trans (suffix_of_takeComponent? htake)
    · cases h

/-- **A date or time is read without breaking a cut**, and as without offsets. -/
theorem MomentReader.readWholeAt_eq (reader : MomentReader) (locale : Locale) (whole : List Char) :
    reader.readWholeAt locale whole = .ok (reader.read? locale whole) := by
  refine findSomeM?_eq (fun components => ?_) reader.candidates
  have hwhole := standsAt_zero whole
  rw [readBy?, takeComponentsAt_eq components hwhole]
  cases htake : takeComponents? locale components .blank whole with
  | none => rfl
  | some found =>
    obtain ⟨fields, rest⟩ := found
    show Except.ok (ite (isAtEnd whole (position whole rest) = true) _ _) = _
    rw [(hwhole.suffix (suffix_of_takeComponents? htake)).isAtEnd_eq]
    cases rest <;> rfl

end Worksheet.Read
