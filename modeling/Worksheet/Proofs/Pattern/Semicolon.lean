import Worksheet.Proofs.Pattern.Heads
import Worksheet.Proofs.Text.Digits

/-!
# Scanning in front of a semicolon

Most terminals end at a semicolon, if not before. In front of one they take what
they take in front of nothing, or take nothing either way
(`Terminal.scan?_inFrontOf`). A quotation mark, a backslash and two marks like
it may take the semicolon in. When they are complete without it, though, they
are scanned in the same way (`Terminal.scan?_inFrontOf_of_eq_some`).

The two statements differ in strength. The first is an equation and says what
fails as well; it is what options and repetitions need, which go on when a part
does not match. The second holds of all terminals but the separator, and is
enough for a part that has to be there.
-/

namespace Worksheet.Pattern

/-- What was read, with a semicolon and more behind what is left. -/
def inFrontOf {α : Type} (more : List Char) (read : α × List Char) : α × List Char :=
  (read.1, read.2 ++ ';' :: more)

/-! ## Scanning

Terminals are told apart by `mayTakeSemicolon`. For those that may not take
one, scanning in front of a semicolon gives the same result, found or not; for
the others only what is found stays, as a marker at the end of a text finds its
character in the semicolon. -/

theorem drop?_inFrontOf {beginning : List Char} (h : ';' ∉ beginning) (input more : List Char) :
    Text.drop? beginning (input ++ ';' :: more)
      = (Text.drop? beginning input).map (· ++ ';' :: more) := by
  induction beginning generalizing input with
  | nil => rfl
  | cons b beginning ih =>
    obtain ⟨hb, hbeginning⟩ := not_or.1 (mt List.mem_cons.2 h)
    cases input with
    | nil => exact if_neg (Ne.symm hb)
    | cons c input =>
      rw [List.cons_append, Text.drop?, Text.drop?]
      split
      · exact ih hbeginning input
      · rfl

/-- A name without a semicolon is found in front of one just as before, since no
capital is a semicolon. -/
theorem dropIgnoringCase?_inFrontOf {name : List Char}
    (h : ';' ∉ name.map Char.toUpper) (input more : List Char) :
    Text.dropIgnoringCase? name (input ++ ';' :: more)
      = (Text.dropIgnoringCase? name input).map (· ++ ';' :: more) := by
  induction name generalizing input with
  | nil => rfl
  | cons n name ih =>
    rw [List.map_cons, List.mem_cons, not_or] at h
    cases input with
    | nil => exact if_neg (Ne.symm h.1)
    | cons c input =>
      rw [List.cons_append, Text.dropIgnoringCase?, Text.dropIgnoringCase?]
      split
      · exact ih h.2 input
      · rfl

theorem findSome?_eq_map {α β : Type} {f g : α → Option β} (change : β → β) {list : List α}
    (h : ∀ a ∈ list, g a = (f a).map change) :
    list.findSome? g = (list.findSome? f).map change := by
  induction list with
  | nil => rfl
  | cons a list ih =>
    rw [List.forall_mem_cons] at h
    rw [List.findSome?_cons, List.findSome?_cons, h.1, ih h.2]
    cases f a <;> rfl

/-- A run of characters of which the semicolon is none. -/
theorem takeRun_inFrontOf {p : Char → Bool} (h : p ';' = false) (input more : List Char) :
    Text.takeRun p (input ++ ';' :: more) = inFrontOf more (Text.takeRun p input) :=
  Text.takeRun_append_of_stops input (Text.stops_cons.2 h)

namespace Terminal

/-- Whether a terminal can take a semicolon. The separator is one by itself; the
others take whatever character comes next, or all up to a quotation mark. -/
def mayTakeSemicolon : Terminal → Bool
  | quotedText | escape | star | underscore | separator => true
  | _ => false

variable {kind : LeafKind} {input rest : List Char}

theorem single_inFrontOf {char : Char} (h : char ≠ ';') (kind : LeafKind)
    (input more : List Char) :
    single char kind (input ++ ';' :: more) = (single char kind input).map (inFrontOf more) := by
  cases input with
  | nil => exact if_neg (Ne.symm h)
  | cons c input =>
    rw [List.cons_append, single, single]
    split <;> rfl

theorem repeated_inFrontOf {letter : Char} (h : letter.toUpper ≠ ';') (make : Nat → LeafKind)
    (input more : List Char) :
    repeated letter make (input ++ ';' :: more)
      = (repeated letter make input).map (inFrontOf more) := by
  have hstops : (fun c : Char => c.toUpper == letter.toUpper) ';' = false :=
    beq_eq_false_iff_ne.2 (Ne.symm h)
  unfold repeated
  rw [takeRun_inFrontOf hstops]
  dsimp only [inFrontOf]
  split <;> rfl

theorem denominator_inFrontOf (input more : List Char) :
    denominator (input ++ ';' :: more) = (denominator input).map (inFrontOf more) := by
  unfold denominator
  rw [takeRun_inFrontOf (by decide)]
  dsimp only [inFrontOf]
  split <;> rfl

theorem paletteColour_inFrontOf (input more : List Char) :
    paletteColour (input ++ ';' :: more) = (paletteColour input).map (inFrontOf more) := by
  unfold paletteColour
  rw [dropIgnoringCase?_inFrontOf (by decide)]
  cases Text.dropIgnoringCase? "Color".toList input with
  | none => rfl
  | some numbered =>
    simp only [Option.map_some, takeRun_inFrontOf (p := Char.isDigit) (by decide), inFrontOf]
    rw [apply_ite (Option.map _)]
    rfl

theorem exponentMark_inFrontOf (input more : List Char) :
    exponentMark (input ++ ';' :: more) = (exponentMark input).map (inFrontOf more) := by
  match input with
  | [] =>
    cases more with
    | nil => rfl
    | cons c more =>
      rw [List.nil_append, exponentMark]
      exact if_neg fun hmark => absurd hmark.1 (by decide)
  | [e] => exact if_neg fun hmark => absurd hmark.2 (by decide)
  | e :: sign :: rest =>
    rw [List.cons_append, List.cons_append, exponentMark, exponentMark]
    split <;> rfl

def takeFraction (text : List Char) : List Char × List Char :=
  match text with
  | '.' :: afterPoint => Text.takeRun Char.isDigit afterPoint
  | _ => ([], text)

theorem takeFraction_inFrontOf (input more : List Char) :
    takeFraction (input ++ ';' :: more) = inFrontOf more (takeFraction input) := by
  by_cases hpoint : ∃ afterPoint, input = '.' :: afterPoint
  · obtain ⟨afterPoint, rfl⟩ := hpoint
    exact takeRun_inFrontOf (by decide) afterPoint more
  · have hinput : takeFraction input = ([], input) := by
      unfold takeFraction
      split
      · exact absurd ⟨_, rfl⟩ hpoint
      · rfl
    rw [hinput, takeFraction.eq_def]
    split
    · rename_i afterPoint heq
      cases input with
      | nil => cases heq
      | cons c input => exact absurd ⟨input, congrArg (· :: input) (List.cons.inj heq).1⟩ hpoint
    · rfl

/-- A number whose sign is known. Scanning a number looks for the sign first,
and the two cases are then the same function. -/
def unsignedNumber (negative : Bool) (text : List Char) : Option (LeafKind × List Char) :=
  let (whole, afterWhole) := Text.takeRun Char.isDigit text
  let (fraction, rest) := takeFraction afterWhole
  if whole.isEmpty && fraction.isEmpty then none
  else
    let size := Number.ofDigits whole fraction 0
    some (.conditionNumber (if negative then -size else size), rest)

theorem unsignedNumber_inFrontOf (negative : Bool) (input more : List Char) :
    unsignedNumber negative (input ++ ';' :: more)
      = (unsignedNumber negative input).map (inFrontOf more) := by
  simp only [unsignedNumber, takeRun_inFrontOf (p := Char.isDigit) (by decide), inFrontOf,
    takeFraction_inFrontOf]
  rw [apply_ite (Option.map _)]
  rfl

theorem signedNumber_cons_of_ne {c : Char} (h : c ≠ '-') (text : List Char) :
    signedNumber (c :: text) = unsignedNumber false (c :: text) := by
  unfold signedNumber
  split
  rename_i hsign
  split at hsign
  · rename_i htext
    exact absurd (List.cons.inj htext).1 h
  · obtain ⟨rfl, rfl⟩ := Prod.mk.inj hsign
    rfl

theorem signedNumber_inFrontOf (input more : List Char) :
    signedNumber (input ++ ';' :: more) = (signedNumber input).map (inFrontOf more) := by
  cases input with
  | nil => exact unsignedNumber_inFrontOf false [] more
  | cons c input =>
    by_cases hsign : c = '-'
    · subst hsign
      exact unsignedNumber_inFrontOf true input more
    · rw [List.cons_append, signedNumber_cons_of_ne hsign, signedNumber_cons_of_ne hsign,
        ← List.cons_append, unsignedNumber_inFrontOf]

/-- **A terminal that takes no semicolon ends in front of it**, by cases on the
terminal and with one lemma for each way of scanning. -/
theorem scan?_inFrontOf {terminal : Terminal} (h : terminal.mayTakeSemicolon = false)
    (input more : List Char) :
    terminal.scan? (input ++ ';' :: more) = (terminal.scan? input).map (inFrontOf more) := by
  cases terminal with
  | quotedText | escape | star | underscore | separator => cases h
  | bracketOpen | bracketClose | digit | digitZero | digitSpace | decimalPoint | groupSeparator
  | percent | currency | textPlaceholder | fractionSymbol =>
    -- each terminal's characters are looked through once for a semicolon; with
    -- none among them, the one behind the text is not reached
    exact single_inFrontOf (by decide) _ input more
  | whitespace | day | month | monthOrMinute | year | hour | second =>
    simp only [scan?]
    exact repeated_inFrontOf (by decide) _ input more
  | textLiteral =>
    cases input with
    | nil => rfl
    | cons c input =>
      simp only [scan?, List.cons_append]
      split <;> rfl
  | generalSymbol =>
    simp only [scan?]
    rw [dropIgnoringCase?_inFrontOf (by decide), Option.map_map, Option.map_map]
    rfl
  | exponent => exact exponentMark_inFrontOf input more
  | fractionDenominator => exact denominator_inFrontOf input more
  | conditionSymbol =>
    have hspellings : ∀ entry ∈ Comparison.spellings, ';' ∉ entry.1 := by decide
    simp only [scan?, Comparison.scan?]
    rw [findSome?_eq_map (inFrontOf more) fun entry hentry => ?_, Option.map_map, Option.map_map]
    · rfl
    · rw [drop?_inFrontOf (hspellings entry hentry), Option.map_map, Option.map_map]
      rfl
  | conditionNumber => exact signedNumber_inFrontOf input more
  | colourNumber => exact paletteColour_inFrontOf input more
  | colourName =>
    have hnames : ∀ entry ∈ Colour.named, ';' ∉ entry.2.map Char.toUpper := by decide
    simp only [scan?]
    refine findSome?_eq_map (inFrontOf more) fun entry hentry => ?_
    rw [dropIgnoringCase?_inFrontOf (hnames entry hentry), Option.map_map, Option.map_map]
    rfl
  | amPm =>
    simp only [scan?]
    rw [dropIgnoringCase?_inFrontOf (by decide), dropIgnoringCase?_inFrontOf (by decide)]
    cases Text.dropIgnoringCase? "AM/PM".toList input <;>
      cases Text.dropIgnoringCase? "A/P".toList input <;> rfl

/-- What is in quotation marks stays there: the closing mark is found where it
was. -/
theorem quotation_inFrontOf (h : quotation input = some (kind, rest)) (more : List Char) :
    quotation (input ++ ';' :: more) = some (kind, rest ++ ';' :: more) := by
  unfold quotation at h
  split at h
  · rename_i inside
    split at h
    · rename_i mark after hclose
      obtain ⟨rfl, rfl⟩ := Prod.mk.inj (Option.some.inj h)
      have hmark := List.head?_dropWhile_not (· != '"') inside
      rw [hclose, List.head?_cons] at hmark
      have hinside := List.takeWhile_append_dropWhile (p := (· != '"')) (l := inside)
      rw [hclose] at hinside
      generalize hrun : inside.takeWhile (· != '"') = run at hinside ⊢
      have hall : ∀ c ∈ run, (c != '"') = true := hrun ▸ fun _ => List.mem_takeWhile_imp
      have hstops : Text.Stops (· != '"') (mark :: (after ++ ';' :: more)) :=
        Text.stops_cons.2 hmark
      obtain ⟨htaken, hleft⟩ := Prod.mk.inj (Text.takeRun_append_of_all hall hstops)
      rw [← hinside, List.cons_append, List.append_assoc, List.cons_append, quotation]
      simp only [htaken, hleft]
    · cases h
  · cases h

theorem marked_inFrontOf {marker : Char} {make : Char → LeafKind}
    (h : marked marker make input = some (kind, rest)) (more : List Char) :
    marked marker make (input ++ ';' :: more) = some (kind, rest ++ ';' :: more) := by
  match input with
  | c :: payload :: after =>
    rw [marked] at h
    rw [List.cons_append, List.cons_append, marked]
    split at h
    · rw [if_pos ‹_›, ← (Prod.mk.inj (Option.some.inj h)).1, ← (Prod.mk.inj (Option.some.inj h)).2]
    · cases h

/-- **What a terminal takes it takes in front of a semicolon as well**, be it
one that could take the semicolon. -/
theorem scan?_inFrontOf_of_eq_some {terminal : Terminal} (hterminal : terminal ≠ separator)
    (h : terminal.scan? input = some (kind, rest)) (more : List Char) :
    terminal.scan? (input ++ ';' :: more) = some (kind, rest ++ ';' :: more) := by
  cases hspan : terminal.mayTakeSemicolon with
  | false =>
    rw [scan?_inFrontOf hspan, h]
    rfl
  | true =>
    cases terminal with
    | separator => exact absurd rfl hterminal
    | quotedText => exact quotation_inFrontOf h more
    | escape | star | underscore => exact marked_inFrontOf h more
    | _ => cases hspan

end Terminal

end Worksheet.Pattern
