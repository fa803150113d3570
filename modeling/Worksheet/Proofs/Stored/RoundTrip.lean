import Worksheet.Proofs.Stored.Formulas
import Worksheet.Proofs.Stored.Patterns

/-!
# Whatever is stored is read back

Patterns, formulas and their parts are read back from their stored forms as they
were (`reads_stored`): the kinds of their nodes, what these hold and their
texts, at any depth, and for a formula which of its parts there are. All that is
asked is that numbers fit the words they are kept in and that times are times of
a clock; labels are valid and ranges have both corners by their types.
-/

namespace Worksheet

/-- **What is stored is read back**: the trees and purposes of patterns, and the
trees, expressions and values of formulas, alone or together. -/
theorem reads_stored :
    (∀ token : Pattern.Token, token.Storable →
        Pattern.Token.ofDatum? token.toDatum = some token)
      ∧ (∀ token : Formula.Token, token.Storable →
          Formula.Token.ofDatum? token.toDatum = some token)
      ∧ (∀ expression : Formula.Expression, expression.Storable →
          Formula.Expression.ofDatum? expression.toDatum = some expression)
      ∧ (∀ value : Value, value.Storable → Value.ofDatum? value.toDatum = some value)
      ∧ (∀ formula : Formula, formula.Storable →
          Formula.ofDatum? formula.toDatum = some formula)
      ∧ (∀ pattern : Pattern, pattern.token.Storable →
          Pattern.ofDatum? pattern.toDatum = some pattern) :=
  ⟨fun _ => Pattern.Token.ofDatum?_toDatum, fun _ => Formula.Token.ofDatum?_toDatum,
    fun _ => Formula.Expression.ofDatum?_toDatum, fun _ => Value.ofDatum?_toDatum,
    fun _ => Formula.ofDatum?_toDatum, fun _ => Pattern.ofDatum?_toDatum⟩

/-- A pattern in which the names `General` and `Text` are those of an inner node
and of a leaf below it: `General;"Text"`. -/
def Pattern.generalOrText : Pattern :=
  ⟨.textFormat, .parent .expression
    [.parent .general [.leaf .general "General".toList] "General".toList,
      .leaf .separator [';'],
      .parent .text [.leaf (.quotedText "Text".toList) "\"Text\"".toList] "\"Text\"".toList]
    "General;\"Text\"".toList⟩

/-- The formula `=-SUM(A1)` whose value is an error without an explanation and
which has no text of its own. -/
def Formula.negatedSum : Formula where
  stored := none
  token := some (.parent .expression
    [.leaf (.mark (.operator .equal)) ['='],
      .parent .negative
        [.leaf (.mark (.operator .subtraction)) ['-'],
          .parent .call
            [.leaf (.functionName "SUM".toList) "SUM".toList,
              .leaf (.mark .parenthesisOpen) ['('],
              .leaf (.cell ⟨⟨0, .relative⟩, ⟨0, .relative⟩⟩) "A1".toList,
              .leaf (.mark .parenthesisClose) [')']]
            "SUM(A1)".toList]
        "-SUM(A1)".toList]
    "=-SUM(A1)".toList)
  expression := some (.negative
    (.call "SUM".toList [.reference (.cell ⟨⟨0, .relative⟩, ⟨0, .relative⟩⟩)]))
  value := some (.error ⟨.name, none⟩)

theorem Pattern.storable_generalOrText : generalOrText.token.Storable := by
  refine .parent _ (List.forall_mem_cons.2 ⟨.parent _ (List.forall_mem_singleton.2 ?_) _,
    List.forall_mem_cons.2 ⟨?_, List.forall_mem_singleton.2
      (.parent _ (List.forall_mem_singleton.2 ?_) _)⟩⟩) _
  all_goals exact .leaf (by trivial) _

theorem Formula.storable_negatedSum : negatedSum.Storable where
  token := by
    intro token htoken
    cases htoken
    refine .parent _ (List.forall_mem_cons.2 ⟨?_, List.forall_mem_singleton.2
      (.parent _ (List.forall_mem_cons.2 ⟨?_, List.forall_mem_singleton.2
        (.parent _ (List.forall_mem_cons.2 ⟨?_, List.forall_mem_cons.2 ⟨?_,
          List.forall_mem_cons.2 ⟨.leaf (by exact ⟨by decide, by decide⟩) _,
            List.forall_mem_singleton.2 ?_⟩⟩⟩) _)⟩) _)⟩) _
    all_goals exact .leaf (by trivial) _
  expression := by
    intro expression hexpression
    cases hexpression
    exact .negative (.call _ (List.forall_mem_singleton.2 (.reference ⟨by decide, by decide⟩)))
  value := by
    intro value hvalue
    cases hvalue
    trivial

theorem reads_stored_generalOrText :
    Pattern.generalOrText.token.Storable
      ∧ Pattern.ofDatum? Pattern.generalOrText.toDatum = some Pattern.generalOrText
      ∧ Formula.negatedSum.Storable
      ∧ Formula.ofDatum? Formula.negatedSum.toDatum = some Formula.negatedSum := by
  obtain ⟨-, -, -, -, readsFormula, readsPattern⟩ := reads_stored
  exact ⟨Pattern.storable_generalOrText, readsPattern _ Pattern.storable_generalOrText,
    Formula.storable_negatedSum, readsFormula _ Formula.storable_negatedSum⟩

end Worksheet
