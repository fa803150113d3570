import Worksheet.Proofs.Formula.Reading
import Worksheet.Proofs.Formula.RoundTrip

/-!
# A formula has one tree

The lexemes of a formula have as many shaped trees as there are ways to put its
operators in order, and the one that is read is told from the others by a
condition on its nodes alone: each joins what binds at least as tightly as the
node itself (`Token.Ordered`). No other shaped tree with these leaves has all of
its nodes in order. So the priorities of the operators, the minus signs above
all of them and the percent signs above those, leave nothing to the reader to
decide.
-/

namespace Worksheet.Formula

/-- **The precedence tree of some lexemes.** Ordered nodes (`Token.Ordered`) are
what the priorities ask for: of two operators of one priority the left one binds
tighter, minus signs bind tighter than any operator, and percent signs tighter
than those. -/
structure IsPrecedenceTree (input : List Lexeme) (tree : Token) : Prop where
  /-- Its nodes have the children the grammar gives them. -/
  shaped : ShapedFormula tree
  /-- All of its nodes are in order. -/
  ordered : ∀ node ∈ tree.nodes, node.Ordered
  /-- It has all of the lexemes as its leaves, in source order. -/
  leaves : tree.leaves = input.map Lexeme.token
  /-- It is the only tree like that. -/
  unique : ∀ other, ShapedFormula other → (∀ node ∈ other.nodes, node.Ordered) →
    other.leaves = input.map Lexeme.token → other = tree

/-- **Shaped trees that bind are told by their leaves.** Reading the leaves
gives back each such tree, and reading is a function. -/
theorem ShapedFormula.isPrecedenceTree {tree : Token} {input : List Lexeme}
    (h : ShapedFormula tree) (hbinds : tree.Binds) (hleaves : LeavesOf tree input) :
    IsPrecedenceTree input tree := by
  refine ⟨h, hbinds, hleaves.symm, fun other hother hbinds' hleaves' => ?_⟩
  have htree := h.ofLexemes?_eq hbinds hleaves 0
  rw [hother.ofLexemes?_eq hbinds' hleaves'.symm 0] at htree
  exact Except.ok.inj htree

/-- **A formula is read into the precedence tree of its lexemes.** -/
theorem isPrecedenceTree_of_ofFormula? {reader : Reader} {text : List Char} {token : Token}
    (h : Token.ofFormula? reader text = .ok token) :
    ∃ input, lexemes reader text = .ok input ∧ IsPrecedenceTree input token := by
  obtain ⟨input, hlexemes, hshaped, hbinds, hleaves⟩ := ofFormula?_eq_ok_iff.1 h
  exact ⟨input, hlexemes, hshaped.isPrecedenceTree hbinds hleaves⟩

namespace Expression

def ofCell (column row : Nat) : Expression :=
  .reference (.cell ⟨⟨column, .relative⟩, ⟨row, .relative⟩⟩)

/-- A minus sign before a power, a group, a percent sign, and two differences:
each is an operand of an operator that might take it differently. -/
def mixed : Expression :=
  .binary .subtraction
    (.binary .multiplication (.binary .power (.negative (ofCell 0 0)) (ofCell 1 1))
      (.binary .subtraction (ofCell 2 2) (.percentage (ofCell 3 3))))
    (ofCell 4 4)

theorem spellable_mixed : mixed.Spellable := by
  refine .binary _ (.binary _ (.binary _ (.negative ?_) ?_) (.binary _ ?_ (.percentage ?_))) ?_
  all_goals exact .cell ⟨by decide, by decide⟩

end Expression

/-- The formula of `mixed` has a precedence tree: the minus sign goes to the
base of the power, and the differences are kept apart by the group. -/
theorem isPrecedenceTree_mixed :
    let text := "=-A1^B2*(C3-D4%)-E5".toList
    ∃ token, Token.ofFormula? Reader.standard text = .ok token ∧
      ∃ input, lexemes Reader.standard text = .ok input ∧ IsPrecedenceTree input token := by
  have hrender : '=' :: Expression.mixed.render = "=-A1^B2*(C3-D4%)-E5".toList := by
    decide +kernel
  have hread := Expression.spellable_mixed.ofFormula?_eq
  rw [hrender] at hread
  exact ⟨_, hread, isPrecedenceTree_of_ofFormula? hread⟩

end Worksheet.Formula
