import Worksheet.Proofs.Formula.Climbing
import Worksheet.Proofs.Formula.Lexing

/-!
# A rendered expression is read back

An expression that can be read back is written as a formula, read again and
comes to itself: its text splits into the leaves of its tree
(`Expression.Spellable.lexes_render`), the leaves are read into the tree, which
is shaped and binds (`ShapedFormula.ofLexemes?_eq`), and the tree has the text
that was written and stands for the expression.
-/

namespace Worksheet.Formula

/-- **A text that splits into the leaves of a tree** is read into the tree
behind an equals sign, when the tree is shaped and binds. Splitting and reading
meet here: `Lexes` is what the scanner needs and `ShapedFormula.ofLexemes?_eq`
what the readers do. -/
theorem ofFormula?_of_lexes {tree : Token} {text : List Char} {follows : List Char → Prop}
    (htext : Lexes tree.leaves text follows) (hfollows : follows []) (hshaped : Shaped tree)
    (hbinds : tree.Binds) :
    Token.ofFormula? Reader.standard ('=' :: text)
      = .ok (.join .expression [Mark.leaf (.operator .equal), tree]) := by
  have hmark := Expression.isMark_markLeaf (.operator .equal)
  have hequals : Lexes [Mark.leaf (.operator .equal)] ['='] fun _ => True :=
    Expression.lexes_plainMark (by decide) (by decide) (by decide)
  obtain ⟨input, hinput, heq⟩ := (hequals.append htext fun _ _ => trivial) 0 [] [] hfollows
  have hlexemes : lexemes Reader.standard ('=' :: text) = .ok input := by
    rw [List.append_nil, List.singleton_append] at heq
    rw [lexemes, heq, lexemesFrom]
    -- nothing is left, so there are no lexemes behind these
    show Except.ok (input ++ []) = _
    rw [List.append_nil]
  have hformula : ShapedFormula (.join .expression [Mark.leaf (.operator .equal), tree]) :=
    .intro hmark allBlank_nil hshaped allBlank_nil
  have hleaves : LeavesOf (.join .expression [Mark.leaf (.operator .equal), tree]) input := by
    rw [LeavesOf, hinput, Token.leaves_join, List.flatMap_cons, List.flatMap_singleton,
      Expression.leaves_markLeaf]
  rw [Token.ofFormula?, hlexemes]
  exact hformula.ofLexemes?_eq
    ((binds_formula hmark allBlank_nil hshaped.isNoise allBlank_nil).2 hbinds) hleaves _

namespace Expression.Spellable

/-- The tree of a formula: an equals sign and the tree of its expression. -/
def formulaTree (e : Expression) : Token :=
  .join .expression [Mark.leaf (.operator .equal), e.tree]

/-- **What is written as a formula is read as its tree**, so nothing is left
open by writing it. -/
theorem ofFormula?_eq {e : Expression} (h : e.Spellable) :
    Token.ofFormula? Reader.standard ('=' :: e.render) = .ok (formulaTree e) :=
  ofFormula?_of_lexes h.lexes_render closed_nil h.shaped_tree h.binds_tree

theorem expression?_formulaTree {e : Expression} (h : e.Spellable) :
    (formulaTree e).expression? = .ok e :=
  expression?_formula (isMark_markLeaf _) allBlank_nil h.isNoise_tree allBlank_nil
    h.expression?_tree

end Expression.Spellable

/-- **A rendered expression is read back.** The formula is read, its tree has
the text that was written, and comes to the expression. -/
theorem ofFormula?_render {e : Expression} (h : e.Spellable) :
    ∃ token, Token.ofFormula? Reader.standard ('=' :: e.render) = .ok token ∧
      token.text = '=' :: e.render ∧ token.expression? = .ok e := by
  refine ⟨Expression.Spellable.formulaTree e, h.ofFormula?_eq, ?_, h.expression?_formulaTree⟩
  show Token.joinedText [_, _] = _
  rw [Expression.joinedText_cons, Expression.joinedText_cons, h.text_tree]
  exact congrArg ('=' :: ·) (List.append_nil _)

/-- An expression with parentheses around some of its operators, a function
whose name reads like a cell, a label that begins like one, and a mark inside a
text. -/
def nested : Expression :=
  .percentage <| .binary .power
    (.negative <| .binary .subtraction (.number 0.1)
      (.reference (.cell ⟨⟨1, .absolute⟩, ⟨1, .relative⟩⟩)))
    (.call ['L', 'O', 'G', '1', '0']
      [.reference (.range (.spanning ⟨⟨2, .relative⟩, ⟨0, .relative⟩⟩
          ⟨⟨0, .relative⟩, ⟨1, .relative⟩⟩)),
        .reference (.label ⟨"A1_x".toList, by decide⟩), .text ['a', '"', 'b']])

theorem spellable_nested : nested.Spellable := by
  refine .percentage (.binary .power (.negative (.binary .subtraction ?_ ?_)) (.call ?_ ?_))
  · exact .number (by decide) (by decide)
  · exact .cell ⟨by decide, by decide⟩
  · exact ⟨rfl, List.all_eq_true.1 rfl⟩
  · rintro argument (_ | ⟨_, _ | ⟨_, _ | ⟨_, harguments⟩⟩⟩)
    · exact .range ⟨by decide, by decide⟩ ⟨by decide, by decide⟩ (by decide)
    · exact .label (by decide)
    · exact .text _
    · cases harguments

theorem ofFormula?_nested :
    let text := "=(-(0.1-$B2)^LOG10(A1:C2,A1_x,\"a\"\"b\"))%".toList
    nested.Spellable ∧ ∃ token, Token.ofFormula? Reader.standard text = .ok token ∧
      token.text = text ∧ token.expression? = .ok nested := by
  have hrender : '=' :: nested.render = "=(-(0.1-$B2)^LOG10(A1:C2,A1_x,\"a\"\"b\"))%".toList := by
    decide +kernel
  dsimp only
  rw [← hrender]
  exact ⟨spellable_nested, ofFormula?_render spellable_nested⟩

end Worksheet.Formula
