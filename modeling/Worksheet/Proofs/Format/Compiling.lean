import Mathlib.Data.List.Forall2
import Worksheet.Format.Formatter
import Worksheet.Proofs.Pattern.Components
import Worksheet.Read.Number

/-!
# One section to write numbers and to read them

A section for numbers is compiled twice, leaf by leaf: into pieces when numbers
are written by it, and into steps when they are read. Both compilers keep the
zone that further digits belong to and count the separators that are not yet
known to group or to scale, each in its own way.

They go side by side (`Alike`): after any leaf that is written and read, the
zone and the pending separators are the same, and there is a step for each piece
(`Alike.leaf`). All leaves of a section that the grammar reads, and that may
stand in a pattern for reading, are of this sort, so what comes of the section
in the end is alike as well (`compiled_alike`).
-/

namespace Worksheet.Format

open Pattern Read

/-- The piece of a section a step stands for when it is read. Whether a place is
the last of its zone is marked later (`NumberCandidate.markLast`), so here none
is. -/
def NumberItem.step : NumberItem → Step
  | .digit zone placeholder => .digit placeholder zone false
  | .decimalPoint => .decimalPoint
  | .exponentMark _ => .exponent
  | .percent => .percent
  | .currency => .currency
  | .literal text => .literal text

variable {same : NumberItem → Step → Prop} {written : NumberSection.Progress}
  {read : NumberCandidate.Progress} {kind : LeafKind} {text : List Char}

/-! ## Side by side

`Alike` is the invariant of two folds over the same leaves. It is kept by each
leaf that both sides know (`Alike.leaf`), and it holds at the start, before
there are any pieces and any steps. -/

/-- **Two sections on their way are alike**, one for writing and one for
reading: there is the same step for each piece, in a sense of sameness, and the
zone and the pending separators agree, which decide what the next leaf means.
The sense of sameness is a parameter since plain digits are read by the very
step of their piece, while in general a literal of spaces is read by any
spaces. -/
structure Alike (same : NumberItem → Step → Prop) (written : NumberSection.Progress)
    (read : NumberCandidate.Progress) : Prop where
  steps : List.Forall₂ same written.layout.items read.candidate.steps
  grouping : read.candidate.grouping = written.layout.grouping
  scale : read.candidate.scale = written.layout.scale
  zone : read.zone = written.zone
  pending : read.pending = written.pending
  started : read.started = !written.layout.integer.isEmpty

/-- **A leaf that is written and read**, if spaces may be. The other leaves are
fillers and what belongs to dates or texts; one of them is enough to make a
section unfit for reading. -/
inductive Legible (same : NumberItem → Step → Prop) : LeafKind → List Char → Prop
  | placeholder {kind : LeafKind} {placeholder : Placeholder}
      (hkind : Placeholder.ofLeaf? kind = some placeholder) (text : List Char) :
      Legible same kind text
  | decimalPoint (text : List Char) : Legible same .decimalPoint text
  | groupSeparator (text : List Char) : Legible same .groupSeparator text
  | exponent (text : List Char) : Legible same .exponent text
  | percent (text : List Char) : Legible same .percent text
  | currency (text : List Char) : Legible same .currency text
  | quotedText (literal text : List Char) : Legible same (.quotedText literal) text
  | escape (char : Char) (text : List Char) : Legible same (.escape char) text
  | textLiteral (literal text : List Char) : Legible same (.textLiteral literal) text
  | whitespace {text : List Char} (hspaces : same (.literal text) .whitespace) :
      Legible same .whitespace text

theorem alike_start :
    Alike same ⟨⟨[], false, 0⟩, .integer, 0⟩ ⟨⟨[], false, 0⟩, .integer, 0, false⟩ :=
  ⟨.nil, rfl, rfl, rfl, rfl, rfl⟩

/-- Pieces that are no places before the point add none. -/
theorem placeholdersIn_append_singleton {zone : Zone} {item : NumberItem} (items : List NumberItem)
    (h : NumberSection.placeholdersIn zone [item] = []) :
    NumberSection.placeholdersIn zone (items ++ [item])
      = NumberSection.placeholdersIn zone items := by
  unfold NumberSection.placeholdersIn at h ⊢
  rw [List.filterMap_append, h, List.append_nil]

namespace Alike

theorem push (h : Alike same written read) {item : NumberItem} {step : Step}
    (hsame : same item step) (hitem : NumberSection.placeholdersIn .integer [item] = []) :
    Alike same (written.push item) (read.push step) where
  steps := List.rel_append h.steps (.cons hsame .nil)
  grouping := h.grouping
  scale := h.scale
  zone := h.zone
  pending := h.pending
  started := by
    refine h.started.trans (congrArg (fun places : List Placeholder => !places.isEmpty) ?_)
    exact (placeholdersIn_append_singleton written.layout.items hitem).symm

theorem settle (h : Alike same written read) : Alike same written.settle read.settle where
  steps := h.steps
  grouping := h.grouping
  scale := by
    show read.candidate.scale + read.pending = written.layout.scale + written.pending
    rw [h.scale, h.pending]
  zone := h.zone
  pending := rfl
  started := h.started

/-- Sections that are alike stay so when both go on in another zone. -/
theorem withZone (h : Alike same written read) (zone : Zone) :
    Alike same { written with zone } { read with zone } :=
  ⟨h.steps, h.grouping, h.scale, rfl, h.pending, h.started⟩

/-- One more placeholder. Both compilers settle the separators that wait, by the
same rule, and in the integer zone both have a place from now on. -/
theorem placeholder (hsame : ∀ item, same item item.step) (h : Alike same written read)
    {placeholder : Placeholder} (hkind : Placeholder.ofLeaf? kind = some placeholder)
    (text : List Char) : Alike same (written.leaf kind text) (read.leaf kind text) := by
  unfold NumberSection.Progress.leaf NumberCandidate.Progress.leaf
  simp only [hkind]
  have hread := h.zone
  by_cases hzone : written.zone = .integer
  · rw [NumberSection.Progress.pushDigit, if_pos hzone, if_pos (hread.trans hzone), hread]
    refine ⟨List.rel_append h.steps (.cons (hsame _) .nil), ?_, h.scale, rfl, rfl, ?_⟩
    · show (read.candidate.grouping || (0 < read.pending && read.started) : Bool)
        = (written.layout.grouping || (0 < written.pending && !written.layout.integer.isEmpty))
      rw [h.grouping, h.pending, h.started]
    · show true = !(NumberSection.placeholdersIn .integer
        (written.layout.items ++ [NumberItem.digit written.zone placeholder])).isEmpty
      rw [hzone, NumberSection.placeholdersIn, List.filterMap_append]
      exact (congrArg not (List.isEmpty_eq_false_iff.2
        (List.append_ne_nil_of_right_ne_nil _ (List.cons_ne_nil _ _)))).symm
  · rw [NumberSection.Progress.pushDigit, if_neg hzone, if_neg (hread ▸ hzone), hread]
    exact h.push (hsame _) (by simp [NumberSection.placeholdersIn, hzone])

/-- **One more leaf that is written and read** keeps the two sides alike. Here
the two compilers are compared leaf by leaf, and this is the only place where
both are unfolded. -/
theorem leaf (hsame : ∀ item, same item item.step) (h : Alike same written read)
    (hleaf : Legible same kind text) :
    Alike same (written.leaf kind text) (read.leaf kind text) := by
  cases hleaf with
  | placeholder hkind => exact h.placeholder hsame hkind text
  | decimalPoint =>
    -- a point behind the first is a literal
    simp only [NumberSection.Progress.leaf, NumberCandidate.Progress.leaf, Placeholder.ofLeaf?,
      h.zone]
    split
    · exact (h.settle.withZone .fraction).push (hsame .decimalPoint) rfl
    · exact h.push (hsame (.literal text)) rfl
  | groupSeparator =>
    -- a separator waits, or is a literal in the exponent
    simp only [NumberSection.Progress.leaf, NumberCandidate.Progress.leaf, Placeholder.ofLeaf?,
      h.zone]
    split
    · exact h.push (hsame (.literal text)) rfl
    · exact ⟨h.steps, h.grouping, h.scale, rfl, congrArg (· + 1) h.pending, h.started⟩
  | exponent => exact (h.settle.withZone .exponent).push (hsame (.exponentMark _)) rfl
  | percent => exact h.push (hsame .percent) rfl
  | currency => exact h.push (hsame .currency) rfl
  | quotedText literal => exact h.push (hsame (.literal literal)) rfl
  | escape char => exact h.push (hsame (.literal [char])) rfl
  | textLiteral literal => exact h.push (hsame (.literal literal)) rfl
  | whitespace hspaces => exact h.push hspaces rfl

/-- **More leaves that are written and read**, by induction from `Alike.leaf`. -/
theorem leaves (hsame : ∀ item, same item item.step) (h : Alike same written read)
    {leaves : List Token}
    (hleaves : ∀ leaf ∈ leaves, ∃ kind text, leaf = .leaf kind text ∧ Legible same kind text) :
    Alike same (leaves.foldl .token written) (leaves.foldl .token read) := by
  induction leaves generalizing written read with
  | nil => exact h
  | cons leaf leaves ih =>
    rw [List.forall_mem_cons] at hleaves
    obtain ⟨⟨kind, text, rfl, hlegible⟩, hmore⟩ := hleaves
    exact ih (h.leaf hsame hlegible) hmore

end Alike

/-- What leaves that are written and read are compiled to is alike, before the
last place of each zone is marked. The marking is kept apart because it looks at
all steps at once. -/
theorem alike_ofLeaves (hsame : ∀ item, same item item.step) {leaves : List Token}
    (hleaves : ∀ leaf ∈ leaves, ∃ kind text, leaf = .leaf kind text ∧ Legible same kind text) :
    ∃ steps, List.Forall₂ same (NumberSection.ofLeaves leaves).items steps ∧
      NumberCandidate.ofLeaves leaves
        = ⟨NumberCandidate.markLast steps, (NumberSection.ofLeaves leaves).grouping,
            (NumberSection.ofLeaves leaves).scale⟩ := by
  have hend := (alike_start.leaves hsame hleaves).settle
  exact ⟨_, hend.steps, congrArg₂ (NumberCandidate.mk _) hend.grouping hend.scale⟩

/-! ## What is read for each piece

The sense of sameness for sections that are read: a literal of spaces is read
by any number of spaces, and marking the last place of each zone changes no
step into that for another piece. -/

/-- **A step reads a piece**: the same place, mark or literal, or any spaces for
a literal of spaces. This is the sense of sameness that holds of every section
that can be read. -/
inductive NumberItem.ReadBy : NumberItem → Step → Prop
  | digit (zone : Zone) (placeholder : Placeholder) (isLast : Bool) :
      ReadBy (.digit zone placeholder) (.digit placeholder zone isLast)
  | decimalPoint : ReadBy .decimalPoint .decimalPoint
  | exponentMark (signed : Bool) : ReadBy (.exponentMark signed) .exponent
  | percent : ReadBy .percent .percent
  | currency : ReadBy .currency .currency
  | literal (text : List Char) : ReadBy (.literal text) (.literal text)
  | spaces {text : List Char} (hsome : text ≠ []) (hspaces : ∀ c ∈ text, c = ' ') :
      ReadBy (.literal text) .whitespace

theorem NumberItem.readBy_step (item : NumberItem) : item.ReadBy item.step := by
  cases item with
  | digit zone placeholder => exact .digit zone placeholder false
  | decimalPoint => exact .decimalPoint
  | exponentMark signed => exact .exponentMark signed
  | percent => exact .percent
  | currency => exact .currency
  | literal text => exact .literal text

variable {items : List NumberItem} {steps : List Step}

theorem forall₂_markLast (h : List.Forall₂ NumberItem.ReadBy items steps) :
    List.Forall₂ NumberItem.ReadBy items (NumberCandidate.markLast steps) := by
  induction h with
  | nil => exact .nil
  | cons hread hmore ih =>
    cases hread with
    | digit => exact .cons (.digit ..) ih
    | decimalPoint => exact .cons .decimalPoint ih
    | exponentMark => exact .cons (.exponentMark _) ih
    | percent => exact .cons .percent ih
    | currency => exact .cons .currency ih
    | literal => exact .cons (.literal _) ih
    | spaces hsome hspaces => exact .cons (.spaces hsome hspaces) ih

theorem count_percent_eq (h : List.Forall₂ NumberItem.ReadBy items steps) :
    steps.count .percent = items.count .percent := by
  induction h with
  | nil => rfl
  | cons hread hmore ih =>
    rw [List.count_cons, List.count_cons, ih]
    cases hread <;> rfl

/-! ## Sections for numbers

That all leaves of a section are such leaves is a fact about the grammar. It is
read off the rules for components, and off the check that refuses fillers in
patterns for reading. -/

variable {input mid rest : List Char} {tokens : List Token} {token : Token}

def literalTerminals : List Terminal :=
  [.quotedText, .escape, .star, .underscore, .whitespace, .textLiteral]

def numberTerminals : List Terminal :=
  [.digit, .digitZero, .digitSpace, .decimalPoint, .groupSeparator, .percent, .currency, .exponent]

/-- A leaf of a literal is written and read, unless it is a filler. A filler is
out of place in a pattern for reading, which is what `hfit` says. -/
theorem legible_of_literal {terminal : Terminal} (hterminal : terminal ∈ literalTerminals)
    (hscan : terminal.scan? input = some (kind, rest))
    (hfit : intruder? .numberParse (.leaf kind (Text.before input rest)) = none) :
    Legible NumberItem.ReadBy kind (Text.before input rest) := by
  have hallowed := allowsLeaf_of_intruder? hfit
  simp only [literalTerminals, List.mem_cons, List.not_mem_nil, or_false] at hterminal
  rcases hterminal with rfl | rfl | rfl | rfl | rfl | rfl
  · obtain ⟨inside, rfl⟩ := Terminal.quotation_eq_some hscan
    exact .quotedText inside _
  · obtain ⟨char, rfl⟩ := Terminal.marked_eq_some hscan
    exact .escape char _
  · obtain ⟨char, rfl⟩ := Terminal.marked_eq_some hscan
    cases hallowed
  · obtain ⟨char, rfl⟩ := Terminal.marked_eq_some hscan
    cases hallowed
  · obtain ⟨rfl, run, rfl, hsome, hspaces, -⟩ := Terminal.spaces_of_scan? hscan
    rw [Text.before_append]
    exact .whitespace (.spaces hsome hspaces)
  · obtain ⟨literal, rfl⟩ := Terminal.textLiteral_eq_some hscan
    exact .textLiteral literal _

theorem legible_of_number {terminal : Terminal} (hterminal : terminal ∈ numberTerminals)
    (hscan : terminal.scan? input = some (kind, rest)) (text : List Char) :
    Legible NumberItem.ReadBy kind text := by
  simp only [numberTerminals, List.mem_cons, List.not_mem_nil, or_false] at hterminal
  rcases hterminal with rfl | rfl | rfl | rfl | rfl | rfl | rfl | rfl
  · obtain rfl := @Terminal.single_eq_some _ _ '#' .digit _ hscan
    exact .placeholder rfl text
  · obtain rfl := @Terminal.single_eq_some _ _ '0' .digitZero _ hscan
    exact .placeholder rfl text
  · obtain rfl := @Terminal.single_eq_some _ _ '?' .digitSpace _ hscan
    exact .placeholder rfl text
  · obtain rfl := @Terminal.single_eq_some _ _ '.' .decimalPoint _ hscan
    exact .decimalPoint text
  · obtain rfl := @Terminal.single_eq_some _ _ ',' .groupSeparator _ hscan
    exact .groupSeparator text
  · obtain rfl := @Terminal.single_eq_some _ _ '%' .percent _ hscan
    exact .percent text
  · obtain rfl := @Terminal.single_eq_some _ _ '$' .currency _ hscan
    exact .currency text
  · obtain rfl := Terminal.exponentMark_eq_some hscan
    exact .exponent text

/-- **A component of a number is one leaf**, and is written and read. The rule
is opened only here, into the terminals of `literalTerminals` and
`numberTerminals`. -/
theorem legible_of_component (hfit : ∀ token ∈ tokens, intruder? .numberParse token = none)
    (h : Parses standard (ruleAt 6) input tokens mid) :
    ∃ kind text, tokens = [.leaf kind text] ∧ Legible NumberItem.ReadBy kind text := by
  obtain ⟨part, hmem, h⟩ := (h.of_splice rfl rfl).exists_of_choice
  have hmem : part ∈ numberTerminals.map piece ++ [ruleAt 3] := hmem
  rcases List.mem_append.1 hmem with hmem | hmem
  · obtain ⟨terminal, hterminal, rfl⟩ := List.mem_map.1 hmem
    obtain ⟨kind, hscan, rfl⟩ := h.exists_of_piece
    exact ⟨kind, _, rfl, legible_of_number hterminal hscan _⟩
  · obtain rfl := List.mem_singleton.1 hmem
    obtain ⟨part, hmem, h⟩ := (h.of_splice rfl rfl).exists_of_choice
    have hmem : part ∈ literalTerminals.map piece := hmem
    obtain ⟨terminal, hterminal, rfl⟩ := List.mem_map.1 hmem
    obtain ⟨kind, hscan, rfl⟩ := h.exists_of_piece
    exact ⟨kind, _, rfl, legible_of_literal hterminal hscan (hfit _ List.mem_cons_self)⟩

theorem legible_of_components (h : Parses standard (.repetition (ruleAt 6)) input tokens rest) :
    (∀ token ∈ tokens, intruder? .numberParse token = none) →
      ∀ token ∈ tokens, ∃ kind text, token = .leaf kind text ∧
        Legible NumberItem.ReadBy kind text := by
  refine h.repetition_induction (motive := fun _ tokens =>
    (∀ token ∈ tokens, intruder? .numberParse token = none) →
      ∀ token ∈ tokens, ∃ kind text, token = .leaf kind text ∧
        Legible NumberItem.ReadBy kind text) (fun _ => nofun) ?_
  intro input mid tokens more hpart hmore hfit
  obtain ⟨htokens, hrest⟩ := List.forall_mem_append.1 hfit
  obtain ⟨kind, text, rfl, hlegible⟩ := legible_of_component htokens hpart
  exact List.forall_mem_cons.2 ⟨⟨kind, text, rfl, hlegible⟩, hmore hrest⟩

theorem eq_nil_of_prefix (hfit : ∀ token ∈ tokens, intruder? .numberParse token = none)
    (h : Parses standard (ruleAt 2) input tokens mid) : tokens = [] := by
  refine List.eq_nil_iff_forall_not_mem.2 fun token hmem => ?_
  obtain ⟨kind, children, text, hblock, rfl⟩ := h.blocks_of_prefix token hmem
  have hnone := hfit _ hmem
  cases kind with
  | colour | condition => cases hnone
  | _ => cases hblock

/-- **A section for reading numbers has nothing but leaves**, all of which are
written and read: blocks such as colours and conditions may not stand in a
pattern for reading. -/
theorem legible_of_parses (hfit : intruderIn? .numberParse token.children = none)
    (h : Parses standard (ruleAt Part.number.index) input [token] rest) :
    ∃ children text, token = .parent .number children text ∧
      ∀ leaf ∈ children, ∃ kind text, leaf = .leaf kind text ∧
        Legible NumberItem.ReadBy kind text := by
  obtain ⟨children, node, hnode, hbuild, hbody⟩ := h.exists_of_node rfl rfl
  obtain rfl := List.singleton_inj.1 hnode
  obtain ⟨-, rfl⟩ := Token.parent?_eq_ok_iff.1 (eq_ok_of_toOption hbuild)
  have hchildren := forall_of_intruderIn? hfit
  obtain ⟨_, _, _, rfl, hprefix, hbody⟩ := hbody.exists_of_sequence
  obtain ⟨_, _, _, rfl, hfirst, hbody⟩ := hbody.exists_of_sequence
  obtain ⟨_, _, _, rfl, hmore, hbody⟩ := hbody.exists_of_sequence
  cases hbody
  simp only [Token.children, List.append_nil] at hchildren
  obtain ⟨hblocks, hcomponents⟩ := List.forall_mem_append.1 hchildren
  obtain rfl := eq_nil_of_prefix hblocks hprefix
  rw [List.nil_append, List.append_nil]
  exact ⟨_, _, rfl, legible_of_components (.round hfirst hmore) hcomponents⟩

theorem leavesSkippingAll_of_leaves {leaves : List Token} (skip : ParentKind → Bool)
    (h : ∀ leaf ∈ leaves, ∃ kind text, leaf = .leaf kind text) :
    Token.leavesSkippingAll skip leaves = leaves ∧
      leaves.flatMap (fun leaf => leaf.leavesSkipping skip) = leaves := by
  induction leaves with
  | nil => exact ⟨rfl, rfl⟩
  | cons leaf leaves ih =>
    rw [List.forall_mem_cons] at h
    obtain ⟨⟨kind, text, rfl⟩, hmore⟩ := h
    obtain ⟨hall, hflat⟩ := ih hmore
    exact ⟨congrArg (Token.leaf kind text :: ·) hall, congrArg (Token.leaf kind text :: ·) hflat⟩

/-- **What a section for numbers is compiled to is alike.** A section that the
grammar reads, and that fits in a pattern for reading numbers, is written with
the same grouping and the same scale as it is read; there is a step for each
piece, in the same order, that reads what is written for the piece, and so there
are as many percent signs to read as to write. -/
theorem compiled_alike {index : ℕ} {isLast : Bool}
    (h : (readPart standard .number input).1 = some (token, rest))
    (hfit : sectionFault? .numberParse index isLast token = none) :
    ∃ layout, Body.ofTree? (some token) = .number layout ∧
      (NumberCandidate.ofLeaves token.leaves).grouping = layout.grouping ∧
      (NumberCandidate.ofLeaves token.leaves).scale = layout.scale ∧
      (NumberCandidate.ofLeaves token.leaves).steps.count .percent = layout.percent ∧
      List.Forall₂ NumberItem.ReadBy layout.items
        (NumberCandidate.ofLeaves token.leaves).steps := by
  have hparses := parses_of_evaluateRule standard _ _ _ _ _ (readPart_standard_iff.1 h)
  obtain ⟨children, text, rfl, hlegible⟩ :=
    legible_of_parses (passes_of_sectionFault? hfit).2 hparses
  have hleaves : ∀ leaf ∈ children, ∃ kind text, leaf = .leaf kind text := fun leaf hleaf =>
    let ⟨kind, text, hkind, _⟩ := hlegible leaf hleaf
    ⟨kind, text, hkind⟩
  have hread : (Token.parent .number children text).leaves = children :=
    (leavesSkippingAll_of_leaves _ hleaves).1
  have hwritten : contentLeaves (.parent .number children text) = children :=
    (leavesSkippingAll_of_leaves _ hleaves).2
  obtain ⟨steps, hsteps, hcandidate⟩ := alike_ofLeaves NumberItem.readBy_step hlegible
  refine ⟨.ofLeaves children, congrArg (fun leaves => Body.number (.ofLeaves leaves)) hwritten, ?_⟩
  rw [hread, hcandidate]
  have hmarked := forall₂_markLast hsteps
  exact ⟨rfl, rfl, count_percent_eq hmarked, hmarked⟩

/-- A section with a group, a scale, an exponent, spaces and a percent sign. -/
theorem compiled_alike_scientific :
    ∃ token layout, (readPart standard .number "$ #,##0.0?,E+0%".toList).1 = some (token, []) ∧
      Body.ofTree? (some token) = .number layout ∧
      (NumberCandidate.ofLeaves token.leaves).grouping = layout.grouping ∧
      (NumberCandidate.ofLeaves token.leaves).scale = layout.scale ∧
      (NumberCandidate.ofLeaves token.leaves).steps.count .percent = layout.percent ∧
      List.Forall₂ NumberItem.ReadBy layout.items
        (NumberCandidate.ofLeaves token.leaves).steps := by
  have hread : (readPart standard .number "$ #,##0.0?,E+0%".toList).1.any (fun read =>
      read.2.isEmpty && (sectionFault? .numberParse 0 true read.1).isNone) = true := by
    decide +kernel
  cases htoken : (readPart standard .number "$ #,##0.0?,E+0%".toList).1 with
  | none =>
    rw [htoken] at hread
    cases hread
  | some found =>
    obtain ⟨token, rest⟩ := found
    rw [htoken, Option.any_some, Bool.and_eq_true, List.isEmpty_iff,
      Option.isNone_iff_eq_none] at hread
    obtain ⟨rfl, hfit⟩ := hread
    obtain ⟨layout, h⟩ := compiled_alike htoken hfit
    exact ⟨token, layout, rfl, h⟩

end Worksheet.Format
