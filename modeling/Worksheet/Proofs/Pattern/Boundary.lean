import Mathlib.Logic.Relation
import Worksheet.Proofs.Pattern.Joined

/-!
# Where the first section ends

The end of a section is found in two ways. A whole pattern is read section by
section, and a section ends where a reading of it reaches a semicolon or the end
of the text. The first section by itself is read up to the first semicolon there
is, whatever that semicolon may be.

A text falls into units in one way only: a text in quotation marks, a backslash,
star or underscore with the character behind it, or one character by itself. No
unit begins with a semicolon that separates, and what a terminal takes is a row
of units (`Terminal.covers_of_scan?`), so all parts that reach the end of a
section reach the same one (`rest_eq_of_readPart`). It follows that the two ways
agree if there is no semicolon in the first section, and that otherwise the
second finds no section at all (`firstSection?_of_wholePattern?`).
-/

namespace Worksheet.Pattern

open Ebnf Token

/-! ## Units

A unit is a plain character, a marker with the character behind it, or a text
in quotation marks. Where units begin is settled from the left, with no regard
to what the grammar makes of them, so `Covers` can compare two readings that
took different parts. -/

/-- The markers that take the next character with them: a backslash makes it a
literal, a star a filler and an underscore a space of its width. -/
def markers : List Char :=
  ['\\', '*', '_']

def IsPlain (c : Char) : Prop :=
  c ∉ ';' :: '"' :: markers

instance (c : Char) : Decidable (IsPlain c) :=
  inferInstanceAs (Decidable (c ∉ ';' :: '"' :: markers))

/-- What follows the first unit of a text, unless it begins with a separator. A
text in quotation marks that is not closed is no unit, nor is a marker at the
end of the text. -/
def afterUnit? : List Char → Option (List Char)
  | [] => none
  | c :: text =>
    if c = ';' then none
    else if c = '"' then (text.dropWhile (· != '"')).tail?
    else if c ∈ markers then text.tail?
    else some text

/-- **Units cover the beginning of a text**, up to a rest. Each unit is fixed by
its first character, so a text is covered in one way only. -/
def Covers : List Char → List Char → Prop :=
  Relation.ReflTransGen fun text rest => afterUnit? text = some rest

variable {text rest rest' taken : List Char}

theorem covers_unit (h : afterUnit? text = some rest) : Covers text rest :=
  .single h

theorem afterUnit?_plain {c : Char} (h : IsPlain c) (text : List Char) :
    afterUnit? (c :: text) = some text := by
  obtain ⟨hseparator, hquote, hmarker⟩ : c ≠ ';' ∧ c ≠ '"' ∧ c ∉ markers := by
    simpa only [IsPlain, List.mem_cons, not_or] using h
  rw [afterUnit?, if_neg hseparator, if_neg hquote, if_neg hmarker]

theorem covers_plain (h : ∀ c ∈ taken, IsPlain c) (rest : List Char) :
    Covers (taken ++ rest) rest := by
  induction taken with
  | nil => exact .refl
  | cons c taken ih =>
    rw [List.forall_mem_cons] at h
    exact .head (afterUnit?_plain h.1 _) (ih h.2)

theorem covers_marked {marker : Char} (h : marker ∈ markers) (payload : Char)
    (rest : List Char) : Covers (marker :: payload :: rest) rest := by
  have hothers : markers.all (fun c => c ≠ ';' ∧ c ≠ '"') = true := by decide
  have hother : marker ≠ ';' ∧ marker ≠ '"' := of_decide_eq_true (List.all_eq_true.1 hothers _ h)
  refine covers_unit ?_
  rw [afterUnit?, if_neg hother.1, if_neg hother.2, if_pos h]
  rfl

/-- No unit begins where a section ends. -/
theorem afterUnit?_eq_none (h : endsSection text = true) : afterUnit? text = none := by
  cases text with
  | nil => rfl
  | cons c text => exact if_pos (beq_iff_eq.1 h)

/-- **Units that reach the end of a section reach the same end.** Of two rows of
units from the same text one goes on where the other stops, and at the end of a
section nothing goes on. -/
theorem Covers.rest_eq (h : Covers text rest) (h' : Covers text rest')
    (hrest : endsSection rest = true) (hrest' : endsSection rest' = true) : rest = rest' := by
  have hstuck : ∀ {front back : List Char}, endsSection front = true → Covers front back →
      front = back := by
    intro front back hfront hcovers
    rcases Relation.ReflTransGen.cases_head hcovers with heq | ⟨next, hnext, -⟩
    · exact heq
    · rw [afterUnit?_eq_none hfront] at hnext
      cases hnext
  have hunique : Relator.RightUnique fun text rest : List Char => afterUnit? text = some rest :=
    fun _ _ _ h h' => Option.some.inj (h.symm.trans h')
  rcases Relation.ReflTransGen.total_of_right_unique hunique h h' with hmore | hmore
  · exact hstuck hrest hmore
  · exact (hstuck hrest' hmore).symm

/-! ## Terminals -/

theorem isPlain_of_toUpper {c d : Char} (h : c.toUpper = d)
    (hd : d ∉ (';' :: '"' :: markers).map Char.toUpper) : IsPlain c :=
  fun hmem => hd (h ▸ List.mem_map_of_mem hmem)

theorem isPlain_of_isDigit {c : Char} (h : c.isDigit = true) : IsPlain c := by
  have hspecial : (';' :: '"' :: markers).all (fun c => !c.isDigit) = true := by decide
  intro hmem
  have hc := List.all_eq_true.1 hspecial c hmem
  rw [h] at hc
  cases hc

theorem covers_takeRun {p : Char → Bool} (h : ∀ c, p c = true → IsPlain c) (text : List Char) :
    Covers text (Text.takeRun p text).2 := by
  have hcovers : Covers ((Text.takeRun p text).1 ++ (Text.takeRun p text).2) _ :=
    covers_plain (fun c hc => h c (List.mem_takeWhile_imp hc)) _
  rwa [Text.takeRun_append] at hcovers

/-- A name of plain characters, in either case. That capitals are plain is
decided on the name as it is spelled in the grammar. -/
theorem covers_of_dropIgnoringCase? {name : List Char}
    (hname : name.all (fun n => n.toUpper ∉ (';' :: '"' :: markers).map Char.toUpper) = true)
    (h : Text.dropIgnoringCase? name text = some rest) : Covers text rest := by
  induction name generalizing text with
  | nil =>
    obtain rfl : text = rest := Option.some.inj h
    exact .refl
  | cons n name ih =>
    rw [List.all_cons, Bool.and_eq_true, decide_eq_true_eq] at hname
    cases text with
    | nil => cases h
    | cons c text =>
      rw [Text.dropIgnoringCase?] at h
      split at h
      · rename_i hc
        have hplain : IsPlain c := isPlain_of_toUpper hc.symm hname.1
        exact .head (afterUnit?_plain hplain text) (ih hname.2 h)
      · cases h

namespace Terminal

variable {kind : LeafKind}

theorem covers_of_single {char : Char} {expected : LeafKind} (hplain : IsPlain char)
    (h : single char expected text = some (kind, rest)) : Covers text rest := by
  cases text with
  | nil => cases h
  | cons c tail =>
    rw [single] at h
    split at h
    · rename_i hc
      obtain ⟨-, rfl⟩ := Prod.mk.inj (Option.some.inj h)
      exact covers_unit (afterUnit?_plain (hc ▸ hplain) tail)
    · cases h

theorem covers_of_marked {marker : Char} {make : Char → LeafKind} (hmarker : marker ∈ markers)
    (h : marked marker make text = some (kind, rest)) : Covers text rest := by
  unfold marked at h
  split at h
  · split at h
    · rename_i hc
      obtain ⟨-, rfl⟩ := Prod.mk.inj (Option.some.inj h)
      exact covers_marked (hc ▸ hmarker) _ _
    · cases h
  · cases h

theorem covers_of_repeated {letter : Char} {make : Nat → LeafKind}
    (hletter : letter.toUpper ∉ (';' :: '"' :: markers).map Char.toUpper)
    (h : repeated letter make text = some (kind, rest)) : Covers text rest := by
  unfold repeated at h
  simp only at h
  split at h
  · cases h
  · obtain ⟨-, rfl⟩ := Prod.mk.inj (Option.some.inj h)
    exact covers_takeRun (fun c hc => isPlain_of_toUpper (beq_iff_eq.1 hc) hletter) text

theorem covers_of_quotation (h : quotation text = some (kind, rest)) : Covers text rest := by
  unfold quotation at h
  split at h
  · split at h
    · rename_i inside mark after hclose
      obtain ⟨-, rfl⟩ := Prod.mk.inj (Option.some.inj h)
      refine covers_unit ?_
      rw [afterUnit?, if_neg (by decide), if_pos rfl, hclose]
      rfl
    · cases h
  · cases h

theorem covers_of_exponentMark (h : exponentMark text = some (kind, rest)) :
    Covers text rest := by
  unfold exponentMark at h
  split at h
  · rename_i e sign after
    split at h
    · rename_i hmark
      obtain ⟨-, rfl⟩ := Prod.mk.inj (Option.some.inj h)
      have hplain : IsPlain e ∧ IsPlain sign := by
        obtain ⟨rfl | rfl, rfl | rfl⟩ := hmark <;> decide
      have hcovers : Covers ([e, sign] ++ after) after := covers_plain (by simpa using hplain) after
      exact hcovers
    · cases h
  · cases h

theorem covers_of_denominator (h : denominator text = some (kind, rest)) : Covers text rest := by
  unfold denominator at h
  simp only at h
  split at h
  · cases h
  · obtain ⟨-, rfl⟩ := Prod.mk.inj (Option.some.inj h)
    exact covers_takeRun (fun c => isPlain_of_isDigit) text

theorem covers_of_paletteColour (h : paletteColour text = some (kind, rest)) :
    Covers text rest := by
  unfold paletteColour at h
  split at h
  · cases h
  · rename_i numbered hname
    simp only at h
    split at h
    · cases h
    · obtain ⟨-, rfl⟩ := Prod.mk.inj (Option.some.inj h)
      exact (covers_of_dropIgnoringCase? (by decide) hname).trans
        (covers_takeRun (fun c => isPlain_of_isDigit) numbered)

theorem covers_takeFraction (text : List Char) : Covers text (takeFraction text).2 := by
  unfold takeFraction
  split
  · rename_i afterPoint
    exact .head (afterUnit?_plain (by decide) afterPoint)
      (covers_takeRun (fun c => isPlain_of_isDigit) afterPoint)
  · exact .refl

theorem covers_of_unsignedNumber {negative : Bool}
    (h : unsignedNumber negative text = some (kind, rest)) : Covers text rest := by
  simp only [unsignedNumber] at h
  split at h
  · cases h
  · obtain ⟨-, rfl⟩ := Prod.mk.inj (Option.some.inj h)
    exact (covers_takeRun (fun c => isPlain_of_isDigit) text).trans (covers_takeFraction _)

theorem covers_of_signedNumber (h : signedNumber text = some (kind, rest)) :
    Covers text rest := by
  cases text with
  | nil =>
    have hunsigned : unsignedNumber false [] = some (kind, rest) := h
    exact covers_of_unsignedNumber hunsigned
  | cons c text =>
    by_cases hsign : c = '-'
    · subst hsign
      have hunsigned : unsignedNumber true text = some (kind, rest) := h
      exact .head (afterUnit?_plain (by decide) text) (covers_of_unsignedNumber hunsigned)
    · rw [signedNumber_cons_of_ne hsign] at h
      exact covers_of_unsignedNumber h

theorem covers_of_comparison {comparison : Comparison}
    (h : Comparison.scan? text = some (comparison, rest)) : Covers text rest := by
  obtain ⟨⟨spelling, found⟩, hmem, hfound⟩ := List.exists_of_findSome?_eq_some h
  obtain ⟨after, hafter, heq⟩ := Option.map_eq_some_iff.1 hfound
  obtain ⟨-, rfl⟩ := Prod.mk.inj heq
  obtain rfl := Text.drop?_eq_some_iff.1 hafter
  have hspellings : ∀ entry ∈ Comparison.spellings, entry.1.all (fun c => IsPlain c) = true := by
    decide
  have hplain := List.all_eq_true.1 (hspellings _ hmem)
  exact covers_plain (fun c hc => of_decide_eq_true (hplain c hc)) after

theorem covers_of_colourName (h : scan? colourName text = some (kind, rest)) :
    Covers text rest := by
  obtain ⟨⟨colour, name⟩, hmem, hfound⟩ := List.exists_of_findSome?_eq_some h
  obtain ⟨after, hafter, heq⟩ := Option.map_eq_some_iff.1 hfound
  obtain ⟨-, rfl⟩ := Prod.mk.inj heq
  have hnames : ∀ entry ∈ Colour.named,
      entry.2.all (fun n => n.toUpper ∉ (';' :: '"' :: markers).map Char.toUpper) = true := by
    decide
  exact covers_of_dropIgnoringCase? (hnames _ hmem) hafter

/-- **What a terminal takes is a row of units**, unless it is a separator.
Terminals are gone through one by one, by the lemmas on the ways of scanning; a
quotation and a marked character are one unit, all else is plain. -/
theorem covers_of_scan? {terminal : Terminal} (hterminal : terminal ≠ separator)
    (h : terminal.scan? text = some (kind, rest)) : Covers text rest := by
  cases terminal with
  | separator => exact absurd rfl hterminal
  | bracketOpen | bracketClose | digit | digitZero | digitSpace | decimalPoint | groupSeparator
  | percent | currency | textPlaceholder | fractionSymbol => exact covers_of_single (by decide) h
  | whitespace =>
    -- spaces are a run of one character, too
    have hspaces : repeated ' ' (fun _ => .whitespace) text = some (kind, rest) := h
    exact covers_of_repeated (by decide) hspaces
  | day | month | monthOrMinute | year | hour | second => exact covers_of_repeated (by decide) h
  | textLiteral =>
    -- no character that stands for itself opens a quotation or an escape
    have hliterals : literalChars.all (fun c => IsPlain c) = true := by decide
    cases text with
    | nil => cases h
    | cons c tail =>
      simp only [scan?] at h
      split at h
      · rename_i hc
        obtain ⟨-, rfl⟩ := Prod.mk.inj (Option.some.inj h)
        have hplain : IsPlain c := of_decide_eq_true (List.all_eq_true.1 hliterals c hc)
        exact covers_unit (afterUnit?_plain hplain tail)
      · cases h
  | quotedText => exact covers_of_quotation h
  | escape | star | underscore => exact covers_of_marked (by decide) h
  | generalSymbol =>
    obtain ⟨after, hafter, heq⟩ := Option.map_eq_some_iff.1 h
    exact (Prod.mk.inj heq).2 ▸ covers_of_dropIgnoringCase? (by decide) hafter
  | exponent => exact covers_of_exponentMark h
  | fractionDenominator => exact covers_of_denominator h
  | conditionSymbol =>
    obtain ⟨⟨comparison, after⟩, hafter, heq⟩ := Option.map_eq_some_iff.1 h
    exact (Prod.mk.inj heq).2 ▸ covers_of_comparison hafter
  | conditionNumber => exact covers_of_signedNumber h
  | colourNumber => exact covers_of_paletteColour h
  | colourName => exact covers_of_colourName h
  | amPm =>
    obtain ⟨after, hafter, heq⟩ := Option.map_eq_some_iff.1 h
    obtain ⟨-, rfl⟩ := Prod.mk.inj heq
    rcases Option.or_eq_some_iff.1 hafter with hname | ⟨-, hname⟩
    · exact covers_of_dropIgnoringCase? (by decide) hname
    · exact covers_of_dropIgnoringCase? (by decide) hname

end Terminal

/-! ## Derivations

Terminals of several units and rules of several terminals come to the same
thing, rows of units (`Derives.covers`). Only the separator is left out, and
with it the rules that call it (`takesUnits`). -/

mutual

/-- Whether an expression takes nothing but units: its literals are plain, and
it has no separator and calls no rule that has one. It is decided for the rules
of the grammar (`takesUnits_standard`). -/
def takesUnits : Expr (Symbol Terminal) → Bool
  | .literal text => text.all fun c => decide (IsPlain c)
  | .symbol (.terminal terminal) => terminal != .separator
  | .symbol (.rule index) => index != Part.separator.index
  | .sequence parts | .choice parts => allTakeUnits parts
  | .optional part | .repetition part => takesUnits part

/-- Whether all expressions take nothing but units. -/
def allTakeUnits : List (Expr (Symbol Terminal)) → Bool
  | [] => true
  | part :: parts => takesUnits part && allTakeUnits parts

end

theorem takesUnits_of_mem {part : Expr (Symbol Terminal)} {parts : List (Expr (Symbol Terminal))}
    (h : allTakeUnits parts = true) (hmem : part ∈ parts) : takesUnits part = true := by
  induction parts with
  | nil => cases hmem
  | cons first parts ih =>
    rw [allTakeUnits, Bool.and_eq_true] at h
    rcases List.mem_cons.1 hmem with rfl | hmem
    · exact h.1
    · exact ih h.2 hmem

theorem takesUnits_standard {index : Nat} {rule : Rule (Symbol Terminal)}
    (hindex : index ≠ Part.separator.index) (h : standard.rules[index]? = some rule) :
    takesUnits rule.body = true := by
  have hrules : ∀ entry ∈ standard.rules.zipIdx,
      entry.2 ≠ Part.separator.index → takesUnits entry.1.body = true := by decide
  exact hrules (rule, index) (List.mem_zipIdx_iff_getElem?.2 h) hindex

/-- **What is derived without separators is a row of units**, by induction on
the derivation. -/
theorem Derives.covers {e : Expr (Symbol Terminal)} (h : Derives standard e text rest)
    (he : takesUnits e = true) : Covers text rest := by
  induction h with
  | literal => exact covers_plain (by simpa [takesUnits] using he) _
  | terminal hscan => exact Terminal.covers_of_scan? (bne_iff_ne.1 he) hscan
  | rule hrule hbody ih => exact ih (takesUnits_standard (bne_iff_ne.1 he) hrule)
  | nil | absent | stop => exact .refl
  | cons hpart hparts ihpart ihparts =>
    rw [takesUnits, allTakeUnits, Bool.and_eq_true] at he
    exact (ihpart he.1).trans (ihparts he.2)
  | choice hmem hpart ih => exact ih (takesUnits_of_mem he hmem)
  | present hpart ih => exact ih he
  | round hpart hmore ihpart ihmore => exact (ihpart he).trans (ihmore he)

/-- **A section ends in one place**, whichever parts it is read as: both
readings cover the text with units up to the end of a section
(`Derives.covers`). -/
theorem rest_eq_of_readPart {part part' : Part} {token token' : Token}
    (hpart : part ≠ .separator) (hpart' : part' ≠ .separator)
    (h : (readPart standard part text).1 = some (token, rest))
    (h' : (readPart standard part' text).1 = some (token', rest'))
    (hrest : endsSection rest = true) (hrest' : endsSection rest' = true) : rest = rest' := by
  have hcovers : ∀ {part : Part} {token : Token} {rest : List Char}, part ≠ .separator →
      (readPart standard part text).1 = some (token, rest) → Covers text rest := by
    intro part token rest hpart h
    have hparses := parses_of_evaluateRule standard _ _ _ _ _ (readPart_standard_iff.1 h)
    refine hparses.derives.covers (bne_iff_ne.2 ?_)
    cases part with
    | separator => exact absurd rfl hpart
    | _ => decide
  exact (hcovers hpart h).rest_eq (hcovers hpart' h') hrest hrest'

/-! ## The first section of a pattern

The two searches run over the same alternatives and differ in their test alone.
A reading that reaches the first semicolon of the text ends a section; the
converse fails just where a unit has a semicolon in it, as in
`firstSection?_escapedSemicolon`. -/

variable {token : Token} {tokens : List Token}

theorem stops_of_endsSection (h : endsSection rest = true) : Text.Stops (· != ';') rest := by
  cases rest with
  | nil => rfl
  | cons c rest => exact Text.stops_cons.2 (by rw [beq_iff_eq.1 h]; rfl)

theorem endsSection_dropWhile (text : List Char) :
    endsSection (text.dropWhile (· != ';')) = true := by
  have hstops := Text.stops_dropWhile (· != ';') text
  cases hrest : text.dropWhile (· != ';') with
  | nil => rfl
  | cons c rest =>
    rw [hrest, Text.stops_cons, bne_eq_false_iff_eq] at hstops
    exact beq_iff_eq.2 hstops

/-- **A section reaches the first semicolon** if it has none itself. The length
of the rest is what the reading of a first section compares. -/
theorem length_dropWhile_eq_iff (taken : List Char) (h : endsSection rest = true) :
    rest.length = ((taken ++ rest).dropWhile (· != ';')).length ↔ ';' ∉ taken := by
  rw [Text.dropWhile_append_of_stops taken (stops_of_endsSection h), List.length_append,
    Nat.right_eq_add, List.length_eq_zero_iff, List.dropWhile_eq_nil_iff]
  constructor
  · exact fun hall hmem => bne_iff_ne.1 (hall ';' hmem) rfl
  · exact fun hnone c hc => bne_iff_ne.2 fun heq => hnone (heq ▸ hc)

theorem isSeparator_of_readPart {part : Part} (hpart : part ≠ .separator)
    (h : (readPart standard part text).1 = some (token, rest)) : token.isSeparator = false := by
  cases parses_of_evaluateRule standard _ _ _ _ _ (readPart_standard_iff.1 h) with
  | node hrule hshape hbuild =>
    obtain ⟨kind, hparent⟩ := Shape.exists_of_build? hbuild
    obtain ⟨-, rfl⟩ := parent?_eq_ok_iff.1 hparent
    rfl
  | splice hrule hshape =>
    cases part with
    | separator => exact absurd rfl hpart
    | _ =>
      obtain rfl := Option.some.inj hrule
      exact absurd hshape (by decide)

/-- **The section at the front of a text** is the first reading that reaches its
end. `readSection` also keeps how far any reading came, for the message of an
error, and that is left out here. -/
theorem fst_readSection (parts : List Part) (reach : Nat) :
    (readSection standard text parts reach).1
      = parts.findSome? fun part =>
          (readPart standard part text).1.filter fun read => endsSection read.2 := by
  fun_induction readSection standard text parts reach with
  | case1 => rfl
  | case2 reach part parts token rest reached hread hends =>
    rw [List.findSome?_cons, hread, Option.filter_some, if_pos hends]
  | case3 reach part parts token rest reached hread hends ih =>
    rw [List.findSome?_cons, hread, Option.filter_some, if_neg hends, ih]
  | case4 reach part parts reached hread ih =>
    rw [List.findSome?_cons, hread, Option.filter_none, ih]

/-- The first section by itself is the first reading that is as long as what is
in front of the first semicolon. Compared with `fst_readSection` only the test
is another. -/
theorem firstSection?_eq_findSome? : firstSection? standard text
    = Part.sections.findSome? fun part => (readPart standard part text).1.filter fun read =>
        read.2.length = (text.dropWhile (· != ';')).length := by
  unfold firstSection?
  refine congrArg (List.findSome? · Part.sections) (funext fun part => ?_)
  cases (readPart standard part text).1 with
  | none => rfl
  | some read =>
    rw [Option.filter_some]
    simp only [decide_eq_true_eq]

theorem endsSection_of_length_eq {part : Part}
    (h : (readPart standard part text).1 = some (token, rest))
    (hlength : rest.length = (text.dropWhile (· != ';')).length) : endsSection rest = true := by
  obtain ⟨taken, htext, -⟩ := spells_of_readPart hasText_standard h
  have hrest : rest <:+ text := htext ▸ List.suffix_append taken rest
  have hsuffix := List.suffix_of_suffix_length_le hrest (List.dropWhile_suffix (· != ';'))
    hlength.le
  rw [hsuffix.eq_of_length hlength]
  exact endsSection_dropWhile text

theorem ne_separator_of_mem {part : Part} (h : part ∈ Part.sections) : part ≠ .separator := by
  revert part
  decide

/-- **The first section by itself is that of the pattern** if it has no
semicolon; with one, it is not found. Readings that reach the end of the section
all have the same length (`rest_eq_of_readPart`), so either all of them pass the
test or none does. -/
theorem firstSection?_of_readSection {reach : Nat}
    (h : (readSection standard text Part.sections reach).1 = some (token, rest)) :
    text = token.text ++ rest ∧ endsSection rest = true ∧
      firstSection? standard text = if ';' ∈ token.text then none else some (token, rest) := by
  rw [fst_readSection, List.findSome?_eq_some_iff] at h
  obtain ⟨front, part, back, hparts, hpart, hfront⟩ := h
  obtain ⟨hread, hrest⟩ := Option.filter_eq_some_iff.1 hpart
  obtain ⟨taken, htext, hspells⟩ := spells_of_readPart hasText_standard hread
  rw [← hspells.text_eq] at htext
  have hmem : part ∈ Part.sections := hparts ▸ List.mem_append_right _ List.mem_cons_self
  have hlength : rest.length = (text.dropWhile (· != ';')).length ↔ ';' ∉ token.text :=
    htext ▸ length_dropWhile_eq_iff token.text hrest
  refine ⟨htext, hrest, ?_⟩
  rw [firstSection?_eq_findSome?]
  split
  · rename_i hsemicolon
    -- any part read up to the first semicolon would end where this one does
    refine List.findSome?_eq_none_iff.2 fun other hother => Option.eq_none_iff_forall_ne_some.2 ?_
    intro read hfilter
    obtain ⟨hread', heq⟩ := Option.filter_eq_some_iff.1 hfilter
    rw [decide_eq_true_eq] at heq
    have hsame := rest_eq_of_readPart (ne_separator_of_mem hmem) (ne_separator_of_mem hother)
      hread hread' hrest (endsSection_of_length_eq hread' heq)
    rw [← hsame] at heq
    exact hlength.1 heq hsemicolon
  · rename_i hnone
    refine List.findSome?_eq_some_iff.2 ⟨front, part, back, hparts, ?_, fun other hother => ?_⟩
    · exact Option.filter_eq_some_iff.2 ⟨hread, decide_eq_true (hlength.2 hnone)⟩
    · refine Option.eq_none_iff_forall_ne_some.2 fun read hfilter => ?_
      obtain ⟨hread', heq⟩ := Option.filter_eq_some_iff.1 hfilter
      rw [decide_eq_true_eq] at heq
      have hends := endsSection_of_length_eq hread' heq
      have hearlier := hfront other hother
      rw [hread', Option.filter_some, if_pos hends] at hearlier
      cases hearlier

/-- The first section of a pattern, unless it is empty, is read at the front of
its text. When more than one node stands in front of the first separator the
last of them would be the section, so it is shown that there is one. -/
theorem exists_readSection_of_readSections {alternatives : List Part} {whole : List Char}
    {reach : Nat} (halternatives : .separator ∉ alternatives)
    (htext : text ≠ []) (h : readSections standard alternatives whole reach text = .ok tokens)
    (hfirst : (sectionsFrom none tokens).head? = some (some token)) :
    ∃ rest, (readSection standard text alternatives reach).1 = some (token, rest) := by
  have hcontent : ∀ {token : Token} {rest : List Char} {reached : Nat},
      readSection standard text alternatives reach = (some (token, rest), reached) →
      token.isSeparator = false := by
    intro token rest reached hread
    obtain ⟨part, hmem, hpart⟩ := exists_of_readSection hread
    exact isSeparator_of_readPart (fun heq => halternatives (heq ▸ hmem)) hpart
  revert h
  fun_cases readSections standard alternatives whole reach text with
  | case1 | case3 | case4 | case6 =>
    intro h
    cases h
  | case2 read taken reached hread =>
    intro h
    obtain rfl := Except.ok.inj h
    unfold read at hread
    split at hread
    · exact absurd (Prod.mk.inj (Option.some.inj (Prod.mk.inj hread).1)).2 htext
    · split at hread
      · rename_i first rest _ hsection
        obtain ⟨rfl, rfl⟩ := Prod.mk.inj (Option.some.inj (Prod.mk.inj hread).1)
        rw [sectionsFrom_cons_of_content (hcontent hsection)] at hfirst
        obtain rfl := Option.some.inj (Option.some.inj hfirst)
        exact ⟨[], congrArg Prod.fst hsection⟩
      · cases (Prod.mk.inj hread).1
  | case5 read taken rest reached hrest hread index hindex outcome separators after hseparators =>
    intro h
    obtain rfl := Option.some.inj (Part.separator.ruleIndex?_standard.symm.trans hindex)
    obtain ⟨mark, rfl⟩ := exists_of_parses (parses_of_evaluateRule _ _ _ _ _ _ hseparators)
    obtain ⟨other, hmem, hmark⟩ := exists_isSeparator_of_matched hseparators
    rw [List.mem_singleton.1 hmem] at hmark
    obtain ⟨more, -, rfl⟩ := exists_of_map_eq_ok h
    unfold read at hread
    split at hread
    · obtain ⟨rfl, -⟩ := Prod.mk.inj (Option.some.inj (Prod.mk.inj hread).1)
      -- a pattern that begins with a separator has no first section
      change (sectionsFrom none (mark :: more)).head? = _ at hfirst
      rw [sectionsFrom_cons_of_separator hmark] at hfirst
      cases hfirst
    · split at hread
      · rename_i first _ _ hsection
        obtain ⟨rfl, rfl⟩ := Prod.mk.inj (Option.some.inj (Prod.mk.inj hread).1)
        change (sectionsFrom none (first :: mark :: more)).head? = _ at hfirst
        rw [sectionsFrom_cons_of_content (hcontent hsection),
          sectionsFrom_cons_of_separator hmark] at hfirst
        obtain rfl := Option.some.inj (Option.some.inj hfirst)
        exact ⟨_, congrArg Prod.fst hsection⟩
      · cases (Prod.mk.inj hread).1

/-- **Where the two ways of finding the first section agree.** If the first
section of a pattern is not empty, then the text begins with it, and there the
pattern's first section ends. Read by itself it is the same section if there is
no semicolon in its text, and otherwise, with a semicolon in quotation marks or
behind a marker, there is none. -/
theorem firstSection?_of_wholePattern? {tree : Token}
    (h : wholePattern? standard Part.sections text = .ok tree)
    (hfirst : tree.sections.head? = some (some token)) :
    ∃ rest, text = token.text ++ rest ∧ endsSection rest = true ∧
      firstSection? standard text
        = if ';' ∈ token.text then none else some (token, rest) := by
  unfold wholePattern? at h
  split at h
  · cases h
  · rename_i hsome
    split at h
    · cases h
    · rename_i tokens hread
      obtain ⟨-, rfl⟩ := parent?_eq_ok_iff.1 h
      obtain ⟨rest, hsection⟩ := exists_readSection_of_readSections (by decide)
        (mt List.isEmpty_iff.2 hsome) hread hfirst
      exact ⟨rest, firstSection?_of_readSection hsection⟩

theorem exists_of_map_text {taken : List Char}
    (h : ((wholePattern? standard Part.sections text).toOption.bind fun tree =>
      tree.sections.head?.join).map Token.text = some taken) :
    ∃ tree token, wholePattern? standard Part.sections text = .ok tree ∧
      tree.sections.head? = some (some token) ∧ token.text = taken := by
  obtain ⟨token, htoken, htaken⟩ := Option.map_eq_some_iff.1 h
  obtain ⟨tree, htree, hfirst⟩ := Option.bind_eq_some_iff.1 htoken
  exact ⟨tree, token, eq_ok_of_toOption htree, Option.join_eq_some_iff.1 hfirst, htaken⟩

/-- A number in front of a section with a semicolon in quotation marks is found
by itself: semicolons behind the first section do not matter. -/
theorem firstSection?_number :
    ∃ tree token, wholePattern? standard Part.sections "0.0;@\";\"".toList = .ok tree ∧
      tree.sections.head? = some (some token) ∧ token.text = "0.0".toList ∧
      firstSection? standard "0.0;@\";\"".toList = some (token, ";@\";\"".toList) := by
  obtain ⟨tree, token, htree, hfirst, htext⟩ :=
    @exists_of_map_text "0.0;@\";\"".toList "0.0".toList (by decide +kernel)
  obtain ⟨rest, happend, -, hsection⟩ := firstSection?_of_wholePattern? htree hfirst
  rw [htext] at happend hsection
  have hsplit : "0.0".toList ++ ";@\";\"".toList = "0.0".toList ++ rest := happend
  obtain rfl := List.append_cancel_left hsplit
  exact ⟨tree, token, htree, hfirst, htext, hsection.trans (if_neg (by decide))⟩

/-- **An escaped semicolon is a section**, and is not found by itself. -/
theorem firstSection?_escapedSemicolon :
    ∃ tree token, wholePattern? standard Part.sections "\\;".toList = .ok tree ∧
      tree.sections.head? = some (some token) ∧ token.text = "\\;".toList ∧
      firstSection? standard "\\;".toList = none := by
  obtain ⟨tree, token, htree, hfirst, htext⟩ :=
    @exists_of_map_text "\\;".toList "\\;".toList (by decide +kernel)
  obtain hnone : (firstSection? standard "\\;".toList).isNone = true := by decide +kernel
  exact ⟨tree, token, htree, hfirst, htext, Option.isNone_iff_eq_none.1 hnone⟩

end Worksheet.Pattern
