import Worksheet.Proofs.Pattern.Depth
import Worksheet.Proofs.Pattern.Greedy

/-!
# Patterns are read exactly as the grammar derives them

The grammar of patterns is read greedily, and nothing is lost by it: a text is
read as a part if and only if the grammar derives it (`exists_wholePart?_iff`).
Every reading is a derivation by `parses_of_evaluateRule`, for any grammar. The
converse is shown rule by rule, from the terminals up: `finds_part` says that
the rule of each part finds at the end of a text what it derives, by the lemmas
of `Finds` on the ways of making an expression.

Most of the grammar is decided by the first character, which is computed
(`fronts`) and compared by `decide`. There are five places where it is not.

* A colour and a condition both begin with a bracket and perhaps a space. Behind
  these they begin differently (`separate_blocks`).

* The word for a palette colour and the name of a colour can both begin with a
  `c`, but differ in the next letter (`separate_colours`).

* A currency sign is also a literal. Either way it is taken alone, as
  `Front.Agree` allows.

* The whole part of a fraction begins like its numerator. They are the same run
  of placeholders, behind which there is a space or a slash (`finds_whole`).

* A point behind seconds is also a literal. If a zero comes next, it cannot be
  one, as no component begins with a zero (`FollowsSeconds`).
-/

namespace Worksheet.Pattern

open Ebnf Terminal

/-! ## How the rules begin

The table is computed and then checked against the grammar, both by evaluation.
With it the conditions of the lemmas on alternatives and repetitions are
decided. -/

/-- How a rule begins, from rules nested to a depth. What is deeper is taken to
begin with nothing, so the table has to be checked against the grammar
(`fits_fronts`). -/
def frontRule (grammar : Grammar Terminal) : Nat → Nat → Front
  | 0, _ => .none
  | depth + 1, index =>
    match grammar.rules[index]? with
    | none => .none
    | some rule => front (frontRule grammar depth) rule.body

/-- How the rules of patterns begin, which nest four deep at most. -/
def fronts : Nat → Front :=
  frontRule standard 4

instance (grammar : Grammar Terminal) (table : Nat → Front) : Decidable (Fits grammar table) :=
  inferInstanceAs (Decidable (∀ entry ∈ grammar.rules.zipIdx, _ ∧ _))

theorem fits_fronts : Fits standard fronts := by
  decide

variable {call : Nat → List Char → Outcome} {follow : List Char → Prop}

/-! ## Literals and components

These rules need one character to tell their alternatives apart. The exception
is a point behind seconds, which may stand alone or begin a fraction; it is
left to the next section. -/

/-- A rule with alternatives that are told apart by their first characters: most
rules of components are of this kind, and their conditions are decided. -/
theorem finds_alternatives (hcall : CarriesOut standard call) {index : Nat} {name : List Char}
    {parts : List (Expr (Symbol Terminal))}
    (hrule : standard.rules[index]? = some ⟨name, .choice parts⟩) (hshape : shapeOf? name = none)
    (hparts : ∀ part ∈ parts, Finds standard call part follow)
    (hsome : ∀ part ∈ parts, (front fronts part).nullable = false)
    (hagree : parts.Pairwise fun e e' => (front fronts e).Agree (front fronts e')) :
    Finds standard call (ruleAt index) follow :=
  .splice hcall hrule hshape (.choice hcall hparts (pairwise_separate fits_fronts hsome hagree))

theorem finds_literal (hcall : CarriesOut standard call) :
    Finds standard call (ruleAt 3) follow :=
  finds_alternatives hcall rfl rfl (by simp [piece, Finds.terminal]) (by decide) (by decide)

theorem finds_dateTimeLiteral (hcall : CarriesOut standard call) :
    Finds standard call (ruleAt 4) follow :=
  finds_alternatives hcall rfl rfl (by simp [Finds.literal, finds_literal hcall])
    (by decide) (by decide)

theorem finds_numberComponent (hcall : CarriesOut standard call) :
    Finds standard call (ruleAt 6) follow :=
  finds_alternatives hcall rfl rfl (by simp [piece, Finds.terminal, finds_literal hcall])
    (by decide) (by decide)

theorem finds_fractionDigit (hcall : CarriesOut standard call) :
    Finds standard call (ruleAt 8) follow :=
  finds_alternatives hcall rfl rfl (by simp [piece, Finds.terminal]) (by decide) (by decide)

theorem finds_fractionLeading (hcall : CarriesOut standard call) :
    Finds standard call (ruleAt 10) follow :=
  finds_alternatives hcall rfl rfl (by simp [piece, Finds.terminal]) (by decide) (by decide)

theorem finds_textComponent (hcall : CarriesOut standard call) :
    Finds standard call (ruleAt 13) follow :=
  finds_alternatives hcall rfl rfl (by simp [piece, Finds.terminal, finds_literal hcall])
    (by decide) (by decide)

theorem finds_dateComponent (hcall : CarriesOut standard call) :
    Finds standard call (ruleAt 15) follow :=
  finds_alternatives hcall rfl rfl (by simp [piece, Finds.terminal, finds_dateTimeLiteral hcall])
    (by decide) (by decide)

/-! ## Fractions of seconds -/

/-- Zeros behind a point are taken as far as they go, so no further zero may
follow. -/
theorem finds_secondFraction (hcall : CarriesOut standard call)
    (hbars : Bars standard follow (piece digitZero)) :
    Finds standard call (ruleAt 14) follow := by
  refine .splice hcall rfl rfl (.cons .terminal (.cons .terminal (.singleton ?_)))
  exact .repetition hcall .terminal hbars fun _ _ h => h.length_lt fits_fronts (by decide)

/-- **Components that may stand behind seconds**: they begin with no zero, and
with a point only where it stands alone. It is decided for times and for dates
with times, the two rules with seconds. -/
structure FollowsSeconds (index : Nat) : Prop where
  nonempty : (front fronts (ruleAt index)).nullable = false
  zero : (front fronts (piece digitZero)).Apart (front fronts (.repetition (ruleAt index)))
  point : (front fronts (piece decimalPoint)).Agree (front fronts (ruleAt index))

namespace FollowsSeconds

variable {index : Nat}

theorem bars_zero (h : FollowsSeconds index) :
    Bars standard (Before standard (.repetition (ruleAt index)) (· = [])) (piece digitZero) :=
  .before fits_fronts (by decide) h.zero fun _ => bars_end fits_fronts (by decide)

/-- **A point and a zero are a fraction of seconds**, and not a component and
the beginning of another. The first character does not tell this, so the text is
followed through the component that takes the point. -/
theorem bars_secondFraction (h : FollowsSeconds index) :
    Bars standard (Before standard (.repetition (ruleAt index)) (· = [])) (ruleAt 14) := by
  refine .rule rfl ?_
  rintro input rest ⟨_, hcomponents, rfl⟩ hfraction
  have hpiece : (front fronts (piece decimalPoint)).nullable = false := by decide
  cases hfraction with
  | cons hdecimal hzeros =>
    cases hzeros with
    | cons hdigit _ =>
      cases hcomponents with
      | stop => exact bars_end fits_fronts hpiece rfl hdecimal
      | round hcomponent hmore =>
        -- the component is the point alone, so the next would begin with the zero
        have heq := h.point.rest_eq (hdecimal.begins fits_fronts hpiece)
          (hcomponent.begins fits_fronts h.nonempty)
        subst heq
        exact h.bars_zero ⟨[], hmore, rfl⟩ hdigit

/-- Seconds, with or without a fraction, in front of such components. -/
theorem finds_seconds (h : FollowsSeconds index) (hcall : CarriesOut standard call) :
    Finds standard call (.sequence [piece second, .optional (ruleAt 14)])
      (Before standard (.repetition (ruleAt index)) (· = [])) :=
  .cons .terminal (.singleton (.optional hcall (finds_secondFraction hcall h.bars_zero)
    h.bars_secondFraction))

end FollowsSeconds

theorem followsSeconds_time : FollowsSeconds 17 :=
  ⟨by decide, by decide, by decide⟩

theorem finds_timeComponent (hcall : CarriesOut standard call) :
    Finds standard call (ruleAt 17) (Before standard (.repetition (ruleAt 17)) (· = [])) :=
  finds_alternatives hcall rfl rfl
    (by simpa [piece, Finds.terminal, finds_dateTimeLiteral hcall]
      using followsSeconds_time.finds_seconds hcall)
    (by decide) (by decide)

theorem followsSeconds_dateTime : FollowsSeconds 19 :=
  ⟨by decide, by decide, by decide⟩

theorem finds_dateTimeComponent (hcall : CarriesOut standard call) :
    Finds standard call (ruleAt 19) (Before standard (.repetition (ruleAt 19)) (· = [])) :=
  finds_alternatives hcall rfl rfl
    (by simpa [piece, Finds.terminal, finds_dateTimeLiteral hcall]
      using followsSeconds_dateTime.finds_seconds hcall)
    (by decide) (by decide)

/-! ## Rules that make a node

`finds_node` adds a single condition to what the expression of the rule meets:
the node must not fail to be made. Blocks and sections are built on it. -/

theorem exists_parent? {rule : Rule (Symbol Terminal)} (hrule : rule ∈ standard.rules)
    (hsome : (front fronts rule.body).nullable = false) {input rest : List Char}
    {tokens : List Token} (h : Parses standard rule.body input tokens rest) (kind : ParentKind) :
    ∃ token, (Token.parent? kind tokens).toOption = some token := by
  have htext := h.joinedText_ne_nil fits_fronts hasText_standard hsome (hasText_standard rule hrule)
  exact ⟨_, by rw [Token.parent?_eq_ok_iff.2 ⟨htext, rfl⟩]; rfl⟩

/-- A rule that puts what it reads under a node of a given kind. A node is
refused when it has no text, which is ruled out since the rule cannot be empty. -/
theorem finds_node (hcall : CarriesOut standard call) {index : Nat}
    {rule : Rule (Symbol Terminal)} {kind : ParentKind}
    (hrule : standard.rules[index]? = some rule) (hshape : shapeOf? rule.name = some (.node kind))
    (hsome : (front fronts rule.body).nullable = false)
    (hbody : Finds standard call rule.body follow) : Finds standard call (ruleAt index) follow :=
  have hmem := List.mem_of_getElem? hrule
  .node hcall hrule hshape (fun _ _ _ h => exists_parent? hmem hsome h kind) hbody

/-! ## Blocks in front of a section

Colours and conditions both begin with a bracket, so the first character does
not tell them apart. What does is the character behind the bracket and its
spaces (`separate_blocks`). -/

/-- Spaces in front of what begins with none: they are taken to their end, and
then nothing is missed. -/
theorem finds_spaces (hcall : CarriesOut standard call) {next : Expr (Symbol Terminal)}
    (hnext : (front fronts next).nullable = false)
    (hapart : (front fronts (piece whitespace)).Apart (front fronts next)) :
    Finds standard call (.optional (piece whitespace)) (Before standard next follow) :=
  .optional hcall .terminal (bars_of_apart fits_fronts (by decide) hnext hapart)

/-- No name of a colour goes on like the word for a palette colour, so the one
that is tried first takes nothing from the other. -/
theorem separate_colours : Separate standard follow (piece colourNumber) (piece colourName) := by
  rintro input rest rest' hnumber hname -
  cases hnumber with
  | terminal hnumber =>
    cases hname with
    | terminal hname =>
      obtain ⟨⟨colour, name⟩, hmem, hfound⟩ := List.exists_of_findSome?_eq_some hname
      obtain ⟨after, hafter, -⟩ := Option.map_eq_some_iff.1 hfound
      simp only [scan?, paletteColour] at hnumber
      split at hnumber
      · cases hnumber
      · rename_i numbered hword
        have hdiffer : ∀ entry ∈ Colour.named,
            ¬ ∀ pair ∈ "Color".toList.zip entry.2, pair.1.toUpper = pair.2.toUpper := by decide
        exact absurd (Text.toUpper_eq_of_dropIgnoringCase? hword hafter) (hdiffer _ hmem)

theorem finds_colour (hcall : CarriesOut standard call) :
    Finds standard call (ruleAt 0) follow := by
  have hcolours : Finds standard call (.choice [piece colourNumber, piece colourName])
      (Before standard (.sequence [.optional (piece whitespace), piece bracketClose]) follow) :=
    .choice hcall (by simp [piece, Finds.terminal]) (List.pairwise_pair.2 separate_colours)
  exact finds_node hcall rfl rfl (by decide) <| .cons .terminal <|
    .cons (finds_spaces hcall (by decide) (by decide)) <| .cons hcolours <|
    .cons (finds_spaces hcall (by decide) (by decide)) <| .singleton .terminal

/-- The nodes of a condition have its comparison among them, so its node can be
made. -/
theorem exists_comparisonIn? {parts : List (Expr (Symbol Terminal))} {input rest : List Char}
    {tokens : List Token} (h : Parses standard (.sequence (piece bracketOpen ::
      .optional (piece whitespace) :: piece conditionSymbol :: parts)) input tokens rest) :
    ∃ comparison, comparisonIn? tokens = some comparison := by
  cases h with
  | cons hopen h =>
    cases h with
    | cons hspaces h =>
      cases h with
      | cons hsymbol h =>
        cases hsymbol with
        | terminal hscan =>
          obtain ⟨⟨comparison, after⟩, -, heq⟩ := Option.map_eq_some_iff.1 hscan
          obtain ⟨rfl, -⟩ := Prod.mk.inj heq
          exact Option.isSome_iff_exists.1 (List.findSome?_isSome_iff.2
            ⟨_, List.mem_append_right _ (List.mem_append_right _ List.mem_cons_self), rfl⟩)

theorem finds_condition (hcall : CarriesOut standard call) :
    Finds standard call (ruleAt 1) follow := by
  have hrule : standard.rules[1]? = some _ := rfl
  refine .node hcall hrule rfl (fun input tokens rest h => ?_) <| .cons .terminal <|
    .cons (finds_spaces hcall (by decide) (by decide)) <| .cons .terminal <|
    .cons (finds_spaces hcall (by decide) (by decide)) <| .cons .terminal <|
    .cons (finds_spaces hcall (by decide) (by decide)) <| .singleton .terminal
  obtain ⟨comparison, hcomparison⟩ := exists_comparisonIn? h
  obtain ⟨token, htoken⟩ := exists_parent? (List.mem_of_getElem? hrule) (by decide) h
    (.condition comparison)
  exact ⟨token, by rw [Shape.build?, hcomparison]; exact htoken⟩

/-- **A colour is no condition**: behind the bracket and the spaces they begin
differently. The common part is read in one way only, which is what
`Bars.common` asks for. -/
theorem separate_blocks (hcall : CarriesOut standard call) :
    Separate standard follow (ruleAt 0) (ruleAt 1) := by
  refine Bars.separate (.rule rfl fun input rest h => ?_)
  refine Bars.common call .terminal .terminal (.common call (finds_spaces hcall ?_ ?_)
    (finds_spaces hcall ?_ ?_) (bars_of_apart fits_fronts ?_ ?_ ?_)) (before_rule h rfl)
  all_goals decide

def block : Expr (Symbol Terminal) :=
  .choice [ruleAt 0, ruleAt 1]

/-- Blocks in front of what is none. Their repetition stops where the section
begins, since no section begins with a bracket. -/
theorem finds_blocks (hcall : CarriesOut standard call) {next : Expr (Symbol Terminal)}
    (hnext : (front fronts next).nullable = false)
    (hapart : (front fronts block).Apart (front fronts next)) :
    Finds standard call (ruleAt 2) (Before standard next follow) := by
  refine .splice hcall rfl rfl <| .repetition hcall ?_
    (bars_of_apart fits_fronts (by decide) hnext hapart)
    fun _ _ h => h.length_lt fits_fronts (by decide)
  exact .choice hcall (by simp [finds_colour hcall, finds_condition hcall])
    (List.pairwise_pair.2 (separate_blocks hcall))

/-! ## Sections

Each rule of a section is blocks and then components to the end of the text.
Fractions are the only ones where a choice depends on characters further on,
and `finds_whole` follows them. -/

/-- A rule once or more often, as far as it goes: no continuation may begin with
another round. -/
theorem finds_oneOrMore (hcall : CarriesOut standard call) {index : Nat}
    (hpart : Finds standard call (ruleAt index)
      (Before standard (.repetition (ruleAt index)) follow))
    (hsome : (front fronts (ruleAt index)).nullable = false)
    (hbars : Bars standard follow (ruleAt index)) :
    Finds standard call (.sequence (oneOrMore index)) follow :=
  .cons (hpart.mono fun _ => before_singleton) <| .singleton <|
    .repetition hcall hpart hbars fun _ _ h => h.length_lt fits_fronts hsome

/-- Blocks and then components to the end of the text. Numbers, texts, dates and
times are sections of this kind, with a rule of components each. -/
theorem finds_components (hcall : CarriesOut standard call) {index component : Nat}
    {name : List Char} {kind : ParentKind}
    (hrule : standard.rules[index]? = some ⟨name, .sequence (ruleAt 2 :: oneOrMore component)⟩)
    (hshape : shapeOf? name = some (.node kind))
    (hpart : Finds standard call (ruleAt component)
      (Before standard (.repetition (ruleAt component)) (· = [])))
    (hsome : (front fronts (ruleAt component)).nullable = false)
    (hnext : (front fronts (.sequence (oneOrMore component))).nullable = false)
    (hapart : (front fronts block).Apart (front fronts (.sequence (oneOrMore component)))) :
    Finds standard call (ruleAt index) (· = []) := by
  have hbody : (front fronts (.sequence (ruleAt 2 :: oneOrMore component))).nullable = false := by
    show ((front fronts (ruleAt 2)).andThen
      (front fronts (.sequence (oneOrMore component)))).nullable = false
    rw [Front.andThen, hnext, Bool.and_false]
  exact finds_node hcall hrule hshape hbody <| .cons (finds_blocks hcall hnext hapart) <|
    finds_oneOrMore hcall hpart hsome (bars_end fits_fronts hsome)

theorem finds_literals (hcall : CarriesOut standard call)
    (hbars : Bars standard follow (ruleAt 3)) :
    Finds standard call (.repetition (ruleAt 3)) follow :=
  .repetition hcall (finds_literal hcall) hbars fun _ _ h =>
    h.length_lt fits_fronts (by decide)

theorem finds_general (hcall : CarriesOut standard call) :
    Finds standard call (ruleAt 5) (· = []) := by
  have hafter : Finds standard call (.repetition (ruleAt 3)) (· = []) :=
    finds_literals hcall (bars_end fits_fronts (by decide))
  have hbefore : Finds standard call (.repetition (ruleAt 3))
      (Before standard (.sequence [piece generalSymbol, .repetition (ruleAt 3)]) (· = [])) :=
    finds_literals hcall (bars_of_apart fits_fronts (by decide) (by decide) (by decide))
  exact finds_node hcall rfl rfl (by decide) <|
    .cons (finds_blocks hcall (by decide) (by decide)) <| .cons hbefore <| .cons .terminal <|
    .singleton hafter

/-- Placeholders for digits, as far as they go. -/
theorem finds_fractionDigits (hcall : CarriesOut standard call)
    (hbars : Bars standard follow (ruleAt 8)) : Finds standard call (ruleAt 9) follow :=
  .splice hcall rfl rfl <|
    finds_oneOrMore hcall (finds_fractionDigit hcall) (by decide) hbars

theorem finds_fractionDigits_before (hcall : CarriesOut standard call)
    {next : Expr (Symbol Terminal)} (hnext : (front fronts next).nullable = false)
    (hapart : (front fronts (ruleAt 8)).Apart (front fronts next)) :
    Finds standard call (ruleAt 9) (Before standard next follow) :=
  finds_fractionDigits hcall (bars_of_apart fits_fronts (by decide) hnext hapart)

/-- A fraction from its numerator on. -/
def fromNumerator : List (Expr (Symbol Terminal)) :=
  [ruleAt 9, piece fractionSymbol, .choice [piece fractionDenominator, ruleAt 9],
    .repetition (ruleAt 3)]

/-- The whole part of a fraction and the space behind it. Where there is none,
the placeholders are those of the numerator, and there is a slash behind them:
the option is tried, fails at the space that is not there, and nothing has been
taken. -/
theorem finds_whole (hcall : CarriesOut standard call) :
    Finds standard call (.optional (.sequence [ruleAt 9, piece whitespace]))
      (Before standard (.sequence fromNumerator) (· = [])) := by
  have hwhole : Finds standard call (.sequence [ruleAt 9, piece whitespace])
      (Before standard (.sequence fromNumerator) (· = [])) :=
    .cons (finds_fractionDigits_before hcall (by decide) (by decide)) (.singleton .terminal)
  have hbars : Bars standard (Before standard (.sequence fromNumerator) (· = []))
      (.sequence [ruleAt 9, piece whitespace]) :=
    .common call (finds_fractionDigits_before hcall (by decide) (by decide))
      (finds_fractionDigits_before hcall (by decide) (by decide))
      (bars_of_apart fits_fronts (by decide) (by decide) (by decide))
  exact .optional hcall hwhole hbars

theorem finds_denominator (hcall : CarriesOut standard call) :
    Finds standard call (.choice [piece fractionDenominator, ruleAt 9])
      (Before standard (.sequence [.repetition (ruleAt 3)]) (· = [])) := by
  have hbars : Bars standard (Before standard (.sequence [.repetition (ruleAt 3)]) (· = []))
      (ruleAt 8) :=
    .before fits_fronts (by decide) (by decide) fun _ => bars_end fits_fronts (by decide)
  exact .choice hcall (by simp [piece, Finds.terminal, finds_fractionDigits hcall hbars])
    (pairwise_separate fits_fronts (by decide) (by decide))

theorem finds_fraction (hcall : CarriesOut standard call) :
    Finds standard call (ruleAt 11) (· = []) := by
  have hnumerator : Finds standard call (.sequence fromNumerator) (· = []) :=
    .cons (finds_fractionDigits_before hcall (by decide) (by decide)) <| .cons .terminal <|
      .cons (finds_denominator hcall) <| .singleton <|
      finds_literals hcall (bars_end fits_fronts (by decide))
  have hleading : Finds standard call (.repetition (ruleAt 10)) (Before standard
      (.sequence (.optional (.sequence [ruleAt 9, piece whitespace]) :: fromNumerator)) (· = [])) :=
    .repetition hcall (finds_fractionLeading hcall)
      (bars_of_apart fits_fronts (by decide) (by decide) (by decide))
      fun _ _ h => h.length_lt fits_fronts (by decide)
  exact finds_node hcall rfl rfl (by decide) <|
    .cons (finds_blocks hcall (by decide) (by decide)) <| .cons hleading <|
    .cons (finds_whole hcall) hnumerator

/-! ## Whole texts

A part is read to the end of its text, so the continuation is the empty one.
For it both directions are put together, of which `parses_of_evaluateRule`
gives one and `finds_part` the other. -/

/-- The place of a part's rule among the rules of patterns. -/
def Part.index : Part → Nat
  | colour => 0
  | condition => 1
  | date => 16
  | dateTime => 20
  | general => 5
  | number => 7
  | text => 12
  | time => 18
  | fraction => 11
  | separator => 21

theorem Part.ruleIndex?_standard (part : Part) :
    standard.ruleIndex? part.ruleName.toList = some part.index := by
  cases part <;> rfl

/-- Evaluated to the depth of a reading, the rules of patterns are carried out:
`depthBound` is past every layer of the grammar, so a rule comes to what its own
expression comes to with the same calls. -/
theorem carriesOut_standard (text : List Char) :
    CarriesOut standard (evaluateRule standard (depthBound standard text)) where
  sound := parses_of_evaluateRule standard _
  call_eq hrule := evaluateRule_eq layered_standard hrule (standardLayer_lt_depthBound _ text)

/-- **Every part is found** at the end of a text. -/
theorem finds_part (hcall : CarriesOut standard call) (part : Part) :
    Finds standard call (ruleAt part.index) (· = []) := by
  cases part with
  | colour => exact finds_colour hcall
  | condition => exact finds_condition hcall
  | general => exact finds_general hcall
  | fraction => exact finds_fraction hcall
  | number =>
    exact finds_components hcall rfl rfl (finds_numberComponent hcall)
      (by decide) (by decide) (by decide)
  | text =>
    exact finds_components hcall rfl rfl (finds_textComponent hcall)
      (by decide) (by decide) (by decide)
  | date =>
    exact finds_components hcall rfl rfl (finds_dateComponent hcall)
      (by decide) (by decide) (by decide)
  | time =>
    exact finds_components hcall rfl rfl (finds_timeComponent hcall)
      (by decide) (by decide) (by decide)
  | dateTime =>
    exact finds_components hcall rfl rfl (finds_dateTimeComponent hcall)
      (by decide) (by decide) (by decide)
  | separator => exact .splice hcall rfl rfl .terminal

theorem nullable_part (part : Part) : (front fronts (ruleAt part.index)).nullable = false := by
  cases part <;> decide

theorem exists_of_parses {part : Part} {input rest : List Char} {tokens : List Token}
    (h : Parses standard (ruleAt part.index) input tokens rest) : ∃ token, tokens = [token] := by
  cases h with
  | node => exact ⟨_, rfl⟩
  | splice hrule hshape hbody =>
    cases part with
    | separator =>
      obtain rfl := Option.some.inj hrule
      cases hbody
      exact ⟨_, rfl⟩
    | colour | condition | date | dateTime | general | number | text | time | fraction =>
      obtain rfl := Option.some.inj hrule
      exact absurd hshape (by decide)

/-- A part is read by its rule, evaluated to the bound for the text. -/
theorem readPart_standard_iff {part : Part} {text rest : List Char} {token : Token} :
    (readPart standard part text).1 = some (token, rest) ↔
      (evaluateRule standard (depthBound standard text) part.index text).matched
        = some ([token], rest) := by
  rw [readPart, part.ruleIndex?_standard]
  simp only
  split
  · rename_i hmatched
    simp only [hmatched, Option.some.injEq, Prod.mk.injEq, List.cons.injEq, and_true]
  · rename_i hother
    exact ⟨nofun, fun h => absurd h (hother _ _)⟩

/-- A whole part is read to the end of a text that is not empty. -/
theorem wholePart?_eq_ok_iff {grammar : Grammar Terminal} {part : Part} {text : List Char}
    {token : Token} : wholePart? grammar part text = .ok token ↔
      text ≠ [] ∧ (readPart grammar part text).1 = some (token, []) := by
  rw [wholePart?, Ne, ← List.isEmpty_iff]
  split
  · exact ⟨nofun, fun h => absurd ‹_› h.1⟩
  · rw [and_iff_right ‹_›]
    split
    · rename_i hread
      simp only [hread, Except.ok.injEq, Option.some.injEq, Prod.mk.injEq, and_true]
    · rename_i rest _ hrest hread
      rw [hread]
      exact ⟨nofun, fun h => absurd (Prod.mk.inj (Option.some.inj h)).2 hrest⟩
    · rename_i hread
      rw [hread]
      exact ⟨nofun, nofun⟩

/-- **A part is derived from a grammar**: its rule derives the whole text.
Nothing is said of an order of alternatives or of greed. -/
def Part.Derives (grammar : Grammar Terminal) (part : Part) (text : List Char) : Prop :=
  ∃ index, grammar.ruleIndex? part.ruleName.toList = some index ∧
    Pattern.Derives grammar (.symbol (.rule index)) text []

/-- **A text is read as a part if and only if the grammar of patterns derives
it**, whichever alternatives, options and numbers of rounds the derivation
takes. From left to right this is `parses_of_evaluateRule`, from right to left
`finds_part`. -/
theorem exists_wholePart?_iff (part : Part) (text : List Char) :
    (∃ token, wholePart? standard part text = .ok token) ↔ part.Derives standard text := by
  constructor
  · rintro ⟨token, h⟩
    have hmatched := readPart_standard_iff.1 (wholePart?_eq_ok_iff.1 h).2
    exact ⟨part.index, part.ruleIndex?_standard,
      (parses_of_evaluateRule standard _ _ text _ _ hmatched).derives⟩
  · rintro ⟨index, hindex, hderives⟩
    obtain rfl := Option.some.inj (part.ruleIndex?_standard.symm.trans hindex)
    obtain ⟨tokens, htokens⟩ := finds_part (carriesOut_standard text) part hderives rfl
    rw [ruleAt, evaluate] at htokens
    obtain ⟨token, rfl⟩ := exists_of_parses (parses_of_evaluateRule standard _ _ text _ _ htokens)
    have hsome : text ≠ [] := by
      rintro rfl
      exact bars_end fits_fronts (nullable_part part) rfl hderives
    exact ⟨token, wholePart?_eq_ok_iff.2 ⟨hsome, readPart_standard_iff.2 htokens⟩⟩

end Worksheet.Pattern
