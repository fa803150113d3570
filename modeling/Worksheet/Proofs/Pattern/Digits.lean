import Worksheet.Proofs.Pattern.Joined

/-!
# Patterns of plain digits

A text of placeholders, separators, points and percent signs that begins with a
placeholder is one section of a pattern, whether it is for writing numbers or
for reading them, and every character is a leaf (`PlainDigits.ofText?_eq`).
Neither the word for a general number nor a fraction is found in it, though
these are tried first when numbers are to be written: the word begins with a
letter (`PlainDigits.readPart_general`), and a fraction has a slash
(`mem_of_derives_fraction`).

The evaluation is followed here for texts of any length, which is why the
grammar is not simply run: one component is taken for each character
(`matched_plain`), and the repetition goes on to the end of the text
(`matched_plains`).
-/

namespace Worksheet.Pattern

open Ebnf Token

def plainChars : List Char :=
  ['#', '0', ',', '.', '%']

/-- The leaf that a character of plain digits is. A percent sign is what is left
when it is none of the others. -/
def plainKind (c : Char) : LeafKind :=
  if c = '#' then .digit
  else if c = '0' then .digitZero
  else if c = ',' then .groupSeparator
  else if c = '.' then .decimalPoint
  else .percent

def plainLeaf (c : Char) : Token :=
  .leaf (plainKind c) [c]

/-- The section of plain digits: one node with a leaf for each character. -/
def digitsTree (text : List Char) : Token :=
  .parent .number (text.map plainLeaf) text

variable {call : Nat → List Char → Outcome} {c : Char} {text rest : List Char}

/-! ## Reading

Readings of the same text by other parts are tried before, and have to fail.
For this a derivation is easier to exclude than an evaluation is to follow, so
they are excluded by the first character (`matched_eq_none`), and a fraction by
its slash. -/

/-- A terminal matches what it scans, and makes a leaf of it. -/
theorem matched_piece (terminal : Terminal) (input : List Char) :
    (evaluate call (piece terminal) input).matched
      = (terminal.scan? input).map fun (kind, rest) =>
        ([.leaf kind (Text.before input rest)], rest) := by
  rw [piece, evaluate]
  cases terminal.scan? input <;> rfl

def numberPieces : List (Expr (Symbol Terminal)) :=
  [piece .digit, piece .digitZero, piece .digitSpace, piece .decimalPoint, piece .groupSeparator,
    piece .percent, piece .currency, piece .exponent, ruleAt 3]

theorem matched_numberPieces (hc : c ∈ plainChars) (rest : List Char) :
    (evaluateFirst call numberPieces (c :: rest)).matched = some ([plainLeaf c], rest) := by
  have hbefore : Text.before (c :: rest) rest = [c] := Text.before_append [c] rest
  simp only [numberPieces, matched_evaluateFirst_cons, matched_piece, Terminal.scan?,
    Terminal.single]
  simp only [plainChars, List.mem_cons, List.not_mem_nil, or_false] at hc
  rcases hc with rfl | rfl | rfl | rfl | rfl <;>
    simp [hbefore, plainLeaf, plainKind]

/-- A character is one component, since it is one of the pieces in front of the
literals. -/
theorem matched_plain (hcall : CarriesOut standard call) (hc : c ∈ plainChars)
    (rest : List Char) :
    (evaluate call (ruleAt 6) (c :: rest)).matched = some ([plainLeaf c], rest) := by
  have hrule : standard.rules[6]? = some ⟨"NUMBER_COMPONENT".toList, .choice numberPieces⟩ := rfl
  refine (hcall.matched_rule hrule).trans ?_
  have hbody : (evaluate call (.choice numberPieces) (c :: rest)).matched
      = some ([plainLeaf c], rest) := by
    rw [evaluate]
    exact matched_numberPieces hc rest
  dsimp only
  rw [hbody]
  rfl

/-- What begins otherwise is not matched. An evaluation that matches is a
derivation, and a derivation begins with one of the computed characters. -/
theorem matched_eq_none (hcall : CarriesOut standard call) {e : Expr (Symbol Terminal)}
    (hsome : (front fronts e).nullable = false) {input : List Char}
    (hheads : ∀ head ∈ (front fronts e).heads, input.head? ≠ some head.char) :
    (evaluate call e input).matched = none := by
  refine Option.eq_none_iff_forall_ne_some.2 fun taken htaken => ?_
  obtain ⟨head, hmem, tail, rfl, -⟩ := (hcall.derives ⟨_, htaken⟩).begins fits_fronts hsome
  exact hheads head hmem rfl

/-- **Plain digits are components to their end.** -/
theorem matched_plains (hcall : CarriesOut standard call) (htext : ∀ c ∈ text, c ∈ plainChars) :
    (evaluate call (.repetition (ruleAt 6)) text).matched = some (text.map plainLeaf, []) := by
  rw [evaluate]
  induction text with
  | nil =>
    have hnone : (evaluate call (ruleAt 6) []).matched = none :=
      matched_eq_none hcall (by decide) (by simp)
    rw [repeatWhile]
    simp only [hnone]
    rfl
  | cons c text ih =>
    rw [List.forall_mem_cons] at htext
    rw [repeatWhile]
    simp only [matched_plain hcall htext.1, List.length_cons, Nat.lt_succ_self, if_true,
      Outcome.after, ih htext.2]
    rfl

theorem matched_blocks (hcall : CarriesOut standard call) {input : List Char}
    (h : input.head? ≠ some '[') : (evaluate call (ruleAt 2) input).matched = some ([], input) := by
  have hrule : standard.rules[2]? = some ⟨"PREFIX".toList, .repetition block⟩ := rfl
  have hnone : (evaluate call block input).matched = none := by
    have hheads : ∀ head ∈ (front fronts block).heads, head.char = '[' := by decide
    exact matched_eq_none hcall (by decide) fun head hmem => hheads head hmem ▸ h
  have hbody : (evaluate call (.repetition block) input).matched = some ([], input) := by
    rw [evaluate, repeatWhile]
    simp only [hnone]
  refine (hcall.matched_rule hrule).trans ?_
  dsimp only
  rw [hbody]
  rfl

theorem joinedText_map_plainLeaf (text : List Char) : joinedText (text.map plainLeaf) = text := by
  induction text with
  | nil => rfl
  | cons c text ih =>
    rw [List.map_cons, joinedText_cons, ih]
    rfl

/-- **Plain digits begin with a placeholder** and are made of characters of
their own. A point or a percent sign at the front would be read as well, but the
general format is looked for first. -/
structure PlainDigits (text : List Char) : Prop where
  head : text.head? = some '#' ∨ text.head? = some '0'
  mem : ∀ c ∈ text, c ∈ plainChars

namespace PlainDigits

theorem head_ne (h : PlainDigits text) (hhash : c ≠ '#') (hzero : c ≠ '0') :
    text.head? ≠ some c := by
  rcases h.head with hhead | hhead <;> rw [hhead, Ne, Option.some.injEq]
  · exact hhash.symm
  · exact hzero.symm

theorem ne_nil (h : PlainDigits text) : text ≠ [] := by
  rintro rfl
  exact h.head.elim nofun nofun

theorem matched_row (hcall : CarriesOut standard call) (h : PlainDigits text) :
    (evaluate call (.sequence (ruleAt 2 :: oneOrMore 6)) text).matched
      = some (text.map plainLeaf, []) := by
  have hblocks := matched_blocks hcall (h.head_ne (c := '[') (by decide) (by decide))
  obtain ⟨c, rest, rfl⟩ := List.exists_cons_of_ne_nil h.ne_nil
  obtain ⟨hc, hrest⟩ := List.forall_mem_cons.1 h.mem
  rw [evaluate, oneOrMore]
  simp only [matched_evaluateAll_cons, hblocks, matched_plain hcall hc, matched_plains hcall hrest,
    Option.bind_some]
  rw [evaluateAll, Outcome.success, Option.map_some, Option.map_some, Option.map_some,
    List.append_nil]
  rfl

theorem parent?_eq (h : PlainDigits text) :
    parent? .number (text.map plainLeaf) = .ok (digitsTree text) :=
  parent?_eq_ok_iff.2 ⟨(joinedText_map_plainLeaf text).symm ▸ h.ne_nil,
    congrArg (Token.parent .number (text.map plainLeaf)) (joinedText_map_plainLeaf text).symm⟩

/-- **Plain digits are a section for numbers.** -/
theorem readPart_number (h : PlainDigits text) :
    (readPart standard .number text).1 = some (digitsTree text, []) := by
  have hrule : standard.rules[7]? = some ⟨"NUMBER".toList, .sequence (ruleAt 2 :: oneOrMore 6)⟩ :=
    rfl
  have hplaced : placed? "NUMBER".toList (text.map plainLeaf) = some [digitsTree text] := by
    show ((parent? .number (text.map plainLeaf)).toOption.map ([·])) = _
    rw [h.parent?_eq]
    rfl
  rw [readPart_standard_iff]
  refine ((carriesOut_standard text).matched_rule hrule).trans ?_
  rw [h.matched_row (carriesOut_standard text), Option.bind_some]
  simp only [hplaced, Option.map_some]

/-- The word for a general number is not found, as no text of plain digits
begins with its letter. -/
theorem readPart_general (h : PlainDigits text) : (readPart standard .general text).1 = none := by
  refine Option.eq_none_iff_forall_ne_some.2 fun (token, rest) hread => ?_
  have hheads : ∀ head ∈ (front fronts (ruleAt Part.general.index)).heads,
      head.char ≠ '#' ∧ head.char ≠ '0' := by decide
  have hderives := (parses_of_evaluateRule standard _ _ _ _ _
    (readPart_standard_iff.1 hread)).derives
  obtain ⟨head, hmem, tail, rfl, -⟩ := hderives.begins fits_fronts (nullable_part .general)
  exact h.head_ne (hheads head hmem).1 (hheads head hmem).2 rfl

end PlainDigits

theorem Derives.exists_of_sequence {grammar : Grammar Terminal} {part : Expr (Symbol Terminal)}
    {parts : List (Expr (Symbol Terminal))}
    (h : Derives grammar (.sequence (part :: parts)) text rest) :
    ∃ mid, Derives grammar part text mid ∧ Derives grammar (.sequence parts) mid rest := by
  cases h with
  | cons hpart hmore => exact ⟨_, hpart, hmore⟩

/-- A fraction has a slash. Its derivation is taken apart up to the slash, and
nothing need be known of its placeholders. -/
theorem mem_of_derives_fraction (h : Derives standard (ruleAt 11) text rest) : '/' ∈ text := by
  have hnone : (front fronts (piece .fractionSymbol)).nullable = false := by decide
  have hheads : ∀ head ∈ (front fronts (piece .fractionSymbol)).heads, head.char = '/' := by decide
  cases h with
  | rule hrule hbody =>
    obtain rfl := Option.some.inj hrule
    obtain ⟨_, hblocks, h⟩ := hbody.exists_of_sequence
    obtain ⟨_, hleading, h⟩ := h.exists_of_sequence
    obtain ⟨_, hwhole, h⟩ := h.exists_of_sequence
    obtain ⟨_, hnumerator, h⟩ := h.exists_of_sequence
    obtain ⟨_, hslash, -⟩ := h.exists_of_sequence
    obtain ⟨head, hmem, tail, rfl, -⟩ := hslash.begins fits_fronts hnone
    rw [hheads head hmem] at hnumerator
    exact hblocks.suffix.subset (hleading.suffix.subset (hwhole.suffix.subset
      (hnumerator.suffix.subset List.mem_cons_self)))

namespace PlainDigits

/-- A fraction is not found. -/
theorem readPart_fraction (h : PlainDigits text) :
    (readPart standard .fraction text).1 = none := by
  refine Option.eq_none_iff_forall_ne_some.2 fun (token, rest) hread => ?_
  have hderives := (parses_of_evaluateRule standard _ _ _ _ _
    (readPart_standard_iff.1 hread)).derives
  exact absurd (h.mem _ (mem_of_derives_fraction hderives)) (by decide)

/-- Every alternative that is tried before is not found, so the section is read
as a number for either kind of pattern. How far the other readings came is left
open. -/
theorem readSection_eq {kind : Kind} (hkind : kind = .numberFormat ∨ kind = .numberParse)
    (h : PlainDigits text) (reach : Nat) :
    ∃ reached, readSection standard text kind.alternatives reach
      = (some (digitsTree text, []), reached) := by
  rcases hkind with rfl | rfl
  · obtain ⟨reached, hgeneral⟩ :=
      readSection_cons_of_none [.fraction, .number, .text] reach h.readPart_general
    obtain ⟨reached', hfraction⟩ :=
      readSection_cons_of_none [.number, .text] reached h.readPart_fraction
    obtain ⟨final, hnumber⟩ := readSection_cons_of_some [.text] reached' h.readPart_number rfl
    exact ⟨final, hgeneral.trans (hfraction.trans hnumber)⟩
  · exact readSection_cons_of_some [] reach h.readPart_number rfl

theorem intruderIn?_map_plainLeaf (kind : Kind) (text : List Char) :
    intruderIn? kind (text.map plainLeaf) = none := by
  induction text with
  | nil => rfl
  | cons c text ih =>
    have hallows : kind.allowsLeaf (plainKind c) = true := by
      unfold plainKind
      split_ifs <;> rfl
    have hleaf : intruder? kind (plainLeaf c) = none := if_pos hallows
    rw [List.map_cons, intruderIn?, hleaf, ih]
    rfl

theorem fault?_eq {kind : Kind} (hkind : kind = .numberFormat ∨ kind = .numberParse)
    (text whole : List Char) :
    fault? kind (.parent .expression [digitsTree text] whole) = none := by
  have hsection : sectionFault? kind 0 true (digitsTree text) = none := by
    rcases hkind with rfl | rfl <;> exact intruderIn?_map_plainLeaf _ text
  have hsections : sectionsFault? kind 0 [some (digitsTree text)] = none := by
    rw [sectionsFault?, List.isEmpty_nil, hsection]
    rfl
  rcases hkind with rfl | rfl <;> exact Option.map_eq_none_iff.2 hsections

/-- **Plain digits are one section**, for writing numbers and for reading them,
and there is nothing wrong with it. -/
theorem ofText?_eq {kind : Kind} (hkind : kind = .numberFormat ∨ kind = .numberParse)
    (h : PlainDigits text) :
    ofText? kind text = .ok ⟨kind, .parent .expression [digitsTree text] text⟩ := by
  have hread : readSections standard kind.alternatives text text.length text
      = .ok [digitsTree text] := by
    refine readSections_last text ?_ (h.readSection_eq hkind _)
    obtain ⟨c, rest, rfl⟩ := List.exists_cons_of_ne_nil h.ne_nil
    exact beq_eq_false_iff_ne.2 fun hc => h.head_ne (c := ';') (by decide) (by decide) (hc ▸ rfl)
  have htree : parent? .expression [digitsTree text]
      = .ok (.parent .expression [digitsTree text] text) :=
    parent?_eq_ok_iff.2 ⟨(joinedText_singleton (digitsTree text)).symm ▸ h.ne_nil, by
      rw [joinedText_singleton]; rfl⟩
  exact ofText?_eq_ok_iff.2 ⟨h.ne_nil, _, hread, _, htree, fault?_eq hkind text text, rfl⟩

end PlainDigits

end Worksheet.Pattern
