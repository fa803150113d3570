import Worksheet.Pattern.Grammar
import Worksheet.Proofs.Ebnf.Printing

/-!
# The standard grammar is read from its source

The grammar of patterns stands in the library twice: as `standardSource`, the
text it is kept in, and as `standard`, the rules that every other statement
about patterns is made with. Loading the one gives the other
(`loadGrammar?_standardSource`).

The source is not read for it. Its lexemes are compared with those of the rules
as they are printed, where each symbol has the name that `standardName` gives
it, and that is enough by `Ebnf.Grammar.ofSource?_of_lexemes`.
-/

namespace Worksheet.Pattern

open Ebnf

/-- The name of a terminal in a grammar source, found backwards in the table
`names` that `Terminal.ofName?` is made with. -/
def Terminal.name (terminal : Terminal) : List Char :=
  ((names.find? fun entry => entry.2 = terminal).map fun entry => entry.1.toList).getD []

/-- The name of a rule or terminal of the standard grammar in its source. -/
def standardName : Symbol Terminal → List Char
  | .rule index => ((standard.rules[index]?).map Rule.name).getD []
  | .terminal terminal => terminal.name

/-- The rules of the standard grammar as they are spelled, with names for
symbols. -/
def standardRules : List (Rule (List Char)) :=
  standard.rules.map (Rule.map standardName)

set_option maxRecDepth 10000 in
/-- The tokens of the source are those of the rules, printed one after the
other. The kernel computes both lists and compares them; this is all that has to
be computed of the source. -/
theorem lexemes_standardSource :
    (lexemes standardSource.toList standardSource.toList).map Placed.lexeme =
      printedRules standardRules := by
  unfold standardSource
  -- the characters of a literal are at hand in this form, but not as what `toList` computes
  rw [show String.toList _ = _ from String.toList_ofList]
  decide +kernel

/-- Each name of the source is looked up to what it stands for in the grammar. -/
theorem lookUp_standardName : ∀ symbol ∈ namesOf standard.rules,
    lookUp standardRules Terminal.ofName? (standardName symbol) = .ok symbol := by
  decide +kernel

theorem isPlain_standardRules : ∀ rule ∈ standardRules, rule.body.isPlain = true := by
  decide +kernel

theorem nodup_standard : (standard.rules.map Rule.name).Nodup := by
  decide +kernel

/-- **The standard grammar is what its source spells**, and it has a rule for
every part of a pattern. So every theorem on `standard` is one on the grammar as
it is loaded. -/
theorem loadGrammar?_standardSource : loadGrammar? standardSource.toList = .ok standard := by
  have hread : Grammar.ofSource? Terminal.ofName? standardSource.toList = .ok standard :=
    Grammar.ofSource?_of_lexemes standardName isPlain_standardRules nodup_standard
      lookUp_standardName lexemes_standardSource
  have hparts : (Part.all.find? fun part =>
      (standard.ruleIndex? part.ruleName.toList).isNone) = none := by
    decide +kernel
  rw [loadGrammar?, hread]
  dsimp only
  rw [hparts]

end Worksheet.Pattern
