import Mathlib.Tactic.IntervalCases
import Worksheet.Pattern.Terminal
import Worksheet.Proofs.Text.Case

/-!
# How a terminal begins

A terminal begins with one of a few characters, whatever comes after them, and
some of these characters are all that it takes. What it leaves is the end of the
text (`Terminal.begins_of_scan?`).

The characters are listed for each terminal (`Terminal.heads`), so that two of
them are told apart by comparing two short lists, which `decide` does. Lists and
scanners are written independently of each other, and the theorem says that they
agree: there is one lemma for each way of scanning, and the terminals are gone
through by the way in which they scan.
-/

namespace Worksheet.Pattern

/-- A character something can begin with, and whether it is all that is taken. -/
structure Head where
  /-- The character. -/
  char : Char
  /-- Whether nothing is taken beyond it. -/
  alone : Bool
  deriving DecidableEq, Repr

namespace Head

def only (char : Char) : List Head :=
  [⟨char, true⟩]

def opening (char : Char) : Head :=
  ⟨char, false⟩

def letter (letter : Char) : List Head :=
  (Text.bothCases letter).map opening

def name (name : List Char) : List Head :=
  (name.head?.map letter).getD []

def nonzeroDigits : List Head :=
  ['1', '2', '3', '4', '5', '6', '7', '8', '9'].map opening

/-- All digits. Zero stands apart since a denominator does not begin with one. -/
def digits : List Head :=
  opening '0' :: nonzeroDigits

end Head

/-- The characters a terminal can begin with, as `Terminal.scan?` looks at them.
Letters are listed in both cases. -/
def Terminal.heads : Terminal → List Head
  | bracketOpen => Head.only '['
  | bracketClose => Head.only ']'
  | digit => Head.only '#'
  | digitZero => Head.only '0'
  | digitSpace => Head.only '?'
  | decimalPoint => Head.only '.'
  | groupSeparator => Head.only ','
  | percent => Head.only '%'
  | currency => Head.only '$'
  | textPlaceholder => Head.only '@'
  | fractionSymbol => Head.only '/'
  | separator => Head.only ';'
  | whitespace => Head.letter ' '
  | textLiteral => literalChars.flatMap Head.only
  | quotedText => [Head.opening '"']
  | escape => [Head.opening '\\']
  | star => [Head.opening '*']
  | underscore => [Head.opening '_']
  | generalSymbol => Head.name "General".toList
  | exponent => Head.letter 'e'
  | fractionDenominator => Head.nonzeroDigits
  | conditionSymbol => Comparison.spellings.filterMap fun (spelling, _) =>
    spelling.head?.map Head.opening
  | conditionNumber => Head.opening '-' :: Head.opening '.' :: Head.digits
  | colourNumber => Head.name "Color".toList
  | colourName => Colour.named.flatMap fun (_, name) => Head.name name
  | day => Head.letter 'd'
  | month => Head.letter 'm'
  | monthOrMinute => Head.letter 'm'
  | year => Head.letter 'y'
  | hour => Head.letter 'h'
  | second => Head.letter 's'
  | amPm => Head.name "AM/PM".toList

/-- **A text begins with one of some characters**, and the rest is the end of
what follows it; if the character is taken alone, it is all of that. -/
def Begins (heads : List Head) (input rest : List Char) : Prop :=
  ∃ head ∈ heads, ∃ tail, input = head.char :: tail ∧ rest <:+ tail ∧
    (head.alone = true → rest = tail)

namespace Begins

variable {heads more : List Head} {input rest : List Char}

theorem only {c : Char} (rest : List Char) : Begins (Head.only c) (c :: rest) rest :=
  ⟨_, List.mem_singleton_self _, rest, rfl, List.suffix_refl _, fun _ => rfl⟩

theorem opening {c : Char} {tail : List Char} (hmem : Head.opening c ∈ heads)
    (hrest : rest <:+ tail) : Begins heads (c :: tail) rest :=
  ⟨_, hmem, tail, rfl, hrest, fun h => absurd h Bool.false_ne_true⟩

theorem letter {letter c : Char} {tail : List Char} (hc : letter.toUpper = c.toUpper)
    (hrest : rest <:+ tail) : Begins (Head.letter letter) (c :: tail) rest :=
  opening (List.mem_map_of_mem (Text.mem_bothCases hc)) hrest

theorem suffix {mid : List Char} (h : Begins heads input mid) (hrest : rest <:+ mid)
    (hopen : ∀ head ∈ heads, head.alone = false) : Begins heads input rest := by
  obtain ⟨head, hmem, tail, heq, hmid, -⟩ := h
  exact ⟨head, hmem, tail, heq, hrest.trans hmid, fun halone => by
    rw [hopen head hmem] at halone
    cases halone⟩

theorem mono (h : Begins heads input rest) (hsub : heads ⊆ more) : Begins more input rest :=
  let ⟨head, hmem, tail⟩ := h
  ⟨head, hsub hmem, tail⟩

end Begins

namespace Terminal

variable {kind : LeafKind} {text rest : List Char}

/-! ## The ways of scanning

Each way of scanning has its lemma, with the same name as the function it is
about. What is left is always a suffix, and for some terminals all that follows
the first character. -/

theorem begins_of_single {char : Char} {expected : LeafKind}
    (h : single char expected text = some (kind, rest)) :
    Begins (Head.only char) text rest := by
  cases text with
  | nil => cases h
  | cons c tail =>
    rw [single] at h
    split at h
    · rename_i hc
      obtain ⟨-, rfl⟩ := Prod.mk.inj (Option.some.inj h)
      exact hc ▸ .only tail
    · cases h

theorem begins_of_marked {marker : Char} {make : Char → LeafKind}
    (h : marked marker make text = some (kind, rest)) :
    Begins [Head.opening marker] text rest := by
  unfold marked at h
  split at h
  · split at h
    · rename_i hc
      obtain ⟨-, rfl⟩ := Prod.mk.inj (Option.some.inj h)
      exact hc ▸ .opening (List.mem_singleton_self _) (List.suffix_cons _ _)
    · cases h
  · cases h

theorem exists_of_takeRun_ne_nil {p : Char → Bool} (h : (Text.takeRun p text).1 ≠ []) :
    ∃ c tail, text = c :: tail ∧ p c = true ∧ (Text.takeRun p text).2 <:+ tail := by
  cases text with
  | nil => exact absurd rfl h
  | cons c tail =>
    cases hc : p c with
    | false => exact absurd (List.takeWhile_cons_of_neg (Bool.eq_false_iff.1 hc)) h
    | true =>
      refine ⟨c, tail, rfl, hc, ?_⟩
      rw [Text.takeRun, List.dropWhile_cons_of_pos hc]
      exact List.dropWhile_suffix p

theorem begins_of_repeated {letter : Char} (make : Nat → LeafKind)
    (h : repeated letter make text = some (kind, rest)) :
    Begins (Head.letter letter) text rest := by
  unfold repeated at h
  simp only at h
  split at h
  · cases h
  · rename_i hrun
    obtain ⟨-, rfl⟩ := Prod.mk.inj (Option.some.inj h)
    obtain ⟨c, tail, rfl, hc, hrest⟩ :=
      exists_of_takeRun_ne_nil fun hnil => hrun (List.isEmpty_iff.2 hnil)
    exact .letter (beq_iff_eq.1 hc).symm hrest

theorem begins_of_quotation (h : quotation text = some (kind, rest)) :
    Begins [Head.opening '"'] text rest := by
  unfold quotation at h
  split at h
  · rename_i inside
    split at h
    · rename_i hclose
      obtain ⟨-, rfl⟩ := Prod.mk.inj (Option.some.inj h)
      refine .opening (List.mem_singleton_self _) ?_
      exact (List.suffix_cons _ _).trans (hclose ▸ List.dropWhile_suffix _)
    · cases h
  · cases h

theorem opening_mem_digits {c : Char} (h : c.isDigit = true) : Head.opening c ∈ Head.digits := by
  obtain ⟨n, hn⟩ : ∃ n, c.toNat = n := ⟨_, rfl⟩
  obtain ⟨hlow, hhigh⟩ : 48 ≤ n ∧ n ≤ 57 := hn ▸ Char.isDigit_iff_toNat.1 h
  rw [← Char.ofNat_toNat c, hn]
  interval_cases n <;> decide

theorem begins_of_takeRun_isDigit (h : (Text.takeRun Char.isDigit text).1 ≠ []) :
    Begins Head.digits text (Text.takeRun Char.isDigit text).2 := by
  obtain ⟨c, tail, rfl, hc, hrest⟩ := exists_of_takeRun_ne_nil h
  exact .opening (opening_mem_digits hc) hrest

theorem begins_of_denominator (h : denominator text = some (kind, rest)) :
    Begins Head.nonzeroDigits text rest := by
  unfold denominator at h
  simp only at h
  split at h
  · cases h
  · rename_i hok
    obtain ⟨-, rfl⟩ := Prod.mk.inj (Option.some.inj h)
    simp only [Bool.or_eq_true, List.isEmpty_iff, beq_iff_eq, decide_eq_true_eq, not_or] at hok
    obtain ⟨c, tail, rfl, hc, hrest⟩ := exists_of_takeRun_ne_nil hok.1.1
    have hzero : Head.opening c ≠ Head.opening '0' := by
      intro heq
      obtain rfl := (Head.mk.inj heq).1
      exact hok.1.2 rfl
    exact .opening ((List.mem_cons.1 (opening_mem_digits hc)).resolve_left hzero) hrest

theorem begins_of_dropIgnoringCase? (name : List Char) (hname : name ≠ [])
    (h : Text.dropIgnoringCase? name text = some rest) : Begins (Head.name name) text rest := by
  cases name with
  | nil => exact absurd rfl hname
  | cons n name =>
    cases text with
    | nil => cases h
    | cons c tail =>
      rw [Text.dropIgnoringCase?] at h
      split at h
      · exact .letter ‹_› (Text.suffix_of_dropIgnoringCase? h)
      · cases h

theorem begins_of_paletteColour (h : paletteColour text = some (kind, rest)) :
    Begins (Head.name "Color".toList) text rest := by
  unfold paletteColour at h
  split at h
  · cases h
  · rename_i numbered hname
    simp only at h
    split at h
    · cases h
    · obtain ⟨-, rfl⟩ := Prod.mk.inj (Option.some.inj h)
      exact (begins_of_dropIgnoringCase? _ (List.cons_ne_nil _ _) hname).suffix
        (List.dropWhile_suffix _) (by decide)

theorem begins_of_exponentMark (h : exponentMark text = some (kind, rest)) :
    Begins (Head.letter 'e') text rest := by
  unfold exponentMark at h
  split at h
  · split at h
    · rename_i hsign
      obtain ⟨-, rfl⟩ := Prod.mk.inj (Option.some.inj h)
      refine .letter ?_ (List.suffix_cons _ _)
      rcases hsign.1 with rfl | rfl <;> rfl
    · cases h
  · cases h

/-- Digits with a point among them. There is a digit before the point or behind
it, so the text begins with a digit or with the point. -/
theorem begins_of_digits {whole fraction afterWhole : List Char}
    (hwhole : Text.takeRun Char.isDigit text = (whole, afterWhole))
    (hfraction : (∃ afterPoint, afterWhole = '.' :: afterPoint ∧ rest <:+ afterPoint) ∨
      fraction = [] ∧ rest = afterWhole)
    (hsome : ¬ (whole = [] ∧ fraction = [])) :
    Begins (Head.opening '.' :: Head.digits) text rest := by
  by_cases hnil : whole = []
  -- the text is what comes after no digits, so a point comes first
  · have htext := Text.takeRun_append Char.isDigit text
    rw [hwhole, hnil, List.nil_append] at htext
    subst htext
    rcases hfraction with ⟨afterPoint, rfl, hrest⟩ | ⟨hfraction, -⟩
    · exact .opening List.mem_cons_self hrest
    · exact absurd ⟨hnil, hfraction⟩ hsome
  · have hbegins : Begins Head.digits text (Text.takeRun Char.isDigit text).2 :=
      begins_of_takeRun_isDigit (by rw [hwhole]; exact hnil)
    rw [hwhole] at hbegins
    refine (hbegins.suffix ?_ (by decide)).mono (List.subset_cons_self _ _)
    rcases hfraction with ⟨afterPoint, rfl, hrest⟩ | ⟨-, rfl⟩
    · exact hrest.trans (List.suffix_cons _ _)
    · exact List.suffix_refl _

theorem begins_of_signedNumber (h : signedNumber text = some (kind, rest)) :
    Begins (Head.opening '-' :: Head.opening '.' :: Head.digits) text rest := by
  unfold signedNumber at h
  split at h
  rename_i negative unsigned hsign
  split at h
  rename_i whole afterWhole hwhole
  split at h
  rename_i fraction after hfraction
  split at h
  · cases h
  · rename_i hsome
    obtain ⟨-, rfl⟩ := Prod.mk.inj (Option.some.inj h)
    rw [Bool.and_eq_true, List.isEmpty_iff, List.isEmpty_iff] at hsome
    have hdigits : Begins (Head.opening '.' :: Head.digits) unsigned after := by
      refine begins_of_digits hwhole ?_ hsome
      split at hfraction
      · exact .inl ⟨_, rfl, (Prod.mk.inj hfraction).2 ▸ List.dropWhile_suffix _⟩
      · exact .inr ⟨(Prod.mk.inj hfraction).1.symm, (Prod.mk.inj hfraction).2.symm⟩
    split at hsign
    · obtain ⟨-, rfl⟩ := Prod.mk.inj hsign
      obtain ⟨head, -, tail, rfl, hrest, -⟩ := hdigits
      exact .opening List.mem_cons_self (hrest.trans (List.suffix_cons _ _))
    · obtain ⟨-, rfl⟩ := Prod.mk.inj hsign
      exact hdigits.mono (List.subset_cons_self _ _)

theorem begins_of_comparison {comparison : Comparison}
    (h : Comparison.scan? text = some (comparison, rest)) :
    Begins conditionSymbol.heads text rest := by
  obtain ⟨⟨spelling, found⟩, hmem, hfound⟩ := List.exists_of_findSome?_eq_some h
  obtain ⟨after, hafter, heq⟩ := Option.map_eq_some_iff.1 hfound
  obtain ⟨-, rfl⟩ := Prod.mk.inj heq
  obtain rfl := Text.drop?_eq_some_iff.1 hafter
  have hsome : ∀ entry ∈ Comparison.spellings, entry.1 ≠ [] := by decide
  cases spelling with
  | nil => exact absurd rfl (hsome _ hmem)
  | cons c tail => exact .opening (List.mem_filterMap.2 ⟨_, hmem, rfl⟩) (List.suffix_append _ _)

theorem begins_of_colourName
    (h : scan? colourName text = some (kind, rest)) : Begins colourName.heads text rest := by
  obtain ⟨⟨colour, name⟩, hmem, hfound⟩ := List.exists_of_findSome?_eq_some h
  obtain ⟨after, hafter, heq⟩ := Option.map_eq_some_iff.1 hfound
  obtain ⟨-, rfl⟩ := Prod.mk.inj heq
  have hsome : ∀ entry ∈ Colour.named, entry.2 ≠ [] := by decide
  exact (begins_of_dropIgnoringCase? _ (hsome _ hmem) hafter).mono
    fun head hhead => List.mem_flatMap.2 ⟨_, hmem, hhead⟩

/-- **A terminal begins with one of its characters** (`Terminal.heads`), and
leaves the end of the text, by cases on the terminal. -/
theorem begins_of_scan? {terminal : Terminal} (h : terminal.scan? text = some (kind, rest)) :
    Begins terminal.heads text rest := by
  cases terminal with
  | bracketOpen | bracketClose | digit | digitZero | digitSpace | decimalPoint | groupSeparator
  | percent | currency | textPlaceholder | fractionSymbol | separator => exact begins_of_single h
  | whitespace => exact begins_of_repeated (fun _ => .whitespace) h
  | textLiteral =>
    cases text with
    | nil => cases h
    | cons c tail =>
      simp only [scan?] at h
      split at h
      · rename_i hc
        obtain ⟨-, rfl⟩ := Prod.mk.inj (Option.some.inj h)
        exact (Begins.only tail).mono fun head hhead => List.mem_flatMap.2 ⟨c, hc, hhead⟩
      · cases h
  | quotedText => exact begins_of_quotation h
  | escape | star | underscore => exact begins_of_marked h
  | generalSymbol =>
    obtain ⟨after, hafter, heq⟩ := Option.map_eq_some_iff.1 h
    exact (Prod.mk.inj heq).2 ▸ begins_of_dropIgnoringCase? _ (List.cons_ne_nil _ _) hafter
  | exponent => exact begins_of_exponentMark h
  | fractionDenominator => exact begins_of_denominator h
  | conditionSymbol =>
    obtain ⟨⟨comparison, after⟩, hafter, heq⟩ := Option.map_eq_some_iff.1 h
    exact (Prod.mk.inj heq).2 ▸ begins_of_comparison hafter
  | conditionNumber => exact begins_of_signedNumber h
  | colourNumber => exact begins_of_paletteColour h
  | colourName => exact begins_of_colourName h
  | day | month | monthOrMinute | year | hour | second => exact begins_of_repeated _ h
  | amPm =>
    obtain ⟨after, hafter, heq⟩ := Option.map_eq_some_iff.1 h
    obtain ⟨-, rfl⟩ := Prod.mk.inj heq
    rcases Option.or_eq_some_iff.1 hafter with hname | ⟨-, hname⟩
    · exact begins_of_dropIgnoringCase? _ (List.cons_ne_nil _ _) hname
    · exact begins_of_dropIgnoringCase? "A/P".toList (List.cons_ne_nil _ _) hname

end Terminal

end Worksheet.Pattern
