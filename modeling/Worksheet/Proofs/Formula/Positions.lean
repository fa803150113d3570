import Worksheet.Proofs.Formula.Reduction
import Worksheet.Proofs.Formula.Stopping

/-!
# Where the errors of formulas are

Whatever is wrong with a formula or an entry, the error says where
(`position_of_error`). The place is between two characters of the text or at one
of its ends, even when characters take more than one byte.

A text that cannot be split into lexemes is wrong at the start of a character.
The parentheses that are open are remembered by where they start, so what is
preserved from one lexeme to the next is that they do
(`startsCharacter_of_lexemesFrom`). Lexemes that make up no formula are wrong at
the first of them that cannot be used, or at the end when all of them can
(`GivesUp`).

Nodes with an empty text would be refused without saying where. There are none:
each node is made with a lexeme among its children, and no lexeme of a text is
empty (`parent?_of_mem`).
-/

namespace Worksheet

namespace Text

/-- **A position is between two characters** of a text, or at one of its ends.
Positions count bytes, so not every number up to the length is one. -/
def Boundary (text : List Char) (position : Nat) : Prop :=
  ∃ front back, text = front ++ back ∧ position = byteLength front

/-- **A position is at the start of a character** of a text. Unlike a `Boundary`
it is never at the end. -/
def StartsCharacter (text : List Char) (position : Nat) : Prop :=
  ∃ front c back, text = front ++ c :: back ∧ position = byteLength front

theorem StartsCharacter.boundary {text : List Char} {position : Nat}
    (h : StartsCharacter text position) : Boundary text position := by
  obtain ⟨front, c, back, htext, hposition⟩ := h
  exact ⟨front, c :: back, htext, hposition⟩

theorem Boundary.le_byteLength {text : List Char} {position : Nat} (h : Boundary text position) :
    position ≤ byteLength text := by
  obtain ⟨front, back, rfl, rfl⟩ := h
  rw [byteLength_append]
  exact Nat.le_add_right _ _

end Text

namespace Formula

/-! ## Texts that cannot be split

The scanner remembers where parentheses were opened, so an error may be at an
earlier place than the one it has come to. All of these places are starts of
characters. -/

theorem mem_of_openAfter? {opened opened' : List Nat} {position start : Nat} {kind : LeafKind}
    (h : openAfter? opened position kind = some opened') (hstart : start ∈ opened') :
    start = position ∨ start ∈ opened := by
  unfold openAfter? at h
  split at h
  · rw [← Option.some.inj h] at hstart
    exact List.mem_cons.1 hstart
  · split at h
    · split at h
      · cases h
      · rw [← Option.some.inj h] at hstart
        exact .inr (List.mem_cons_of_mem _ hstart)
    · rw [← Option.some.inj h] at hstart
      exact .inr hstart

/-- **A text that cannot be split into lexemes** is wrong at the start of a
character. It is split from some position on, and what is open there was opened
at the start of a character too. -/
theorem startsCharacter_of_lexemesFrom {reader : Reader} {position : Nat} {opened : List Nat}
    {front text : List Char} {error : LexicalError} (hposition : position = Text.byteLength front)
    (hopened : ∀ start ∈ opened, Text.StartsCharacter (front ++ text) start)
    (h : lexemesFrom reader position opened text = .error error) :
    Text.StartsCharacter (front ++ text) error.position := by
  fun_induction lexemesFrom reader position opened text generalizing front with
  | case1 => cases h
  | case2 position last opened =>
    obtain rfl := Except.error.inj h
    exact hopened last List.mem_cons_self
  | case3 position opened first rest fault hscan =>
    obtain rfl := Except.error.inj h
    exact ⟨front, first, rest, rfl, hposition⟩
  | case4 position opened first rest kind after hscan hclosed =>
    obtain rfl := Except.error.inj h
    exact ⟨front, first, rest, rfl, hposition⟩
  | case5 position opened first rest kind after hscan opened' hopen taken fault hfault =>
    rename_i ih
    obtain rfl := Except.error.inj h
    -- the lexeme joins the front; an opened parenthesis now stands in it
    have htaken : front ++ taken ++ after = front ++ first :: rest := by
      rw [List.append_assoc, before_append_of_scan hscan]
    have hposition' : position + Text.byteLength taken = Text.byteLength (front ++ taken) := by
      rw [Text.byteLength_append, hposition]
    rw [← htaken] at hopened ⊢
    refine ih hposition' (fun start hstart => ?_) hfault
    rcases mem_of_openAfter? hopen hstart with rfl | hbefore
    · rw [htaken]
      exact ⟨front, first, rest, rfl, hposition⟩
    · exact hopened start hbefore
  | case6 => cases h

theorem startsCharacter_of_lexemes {reader : Reader} {text : List Char} {error : LexicalError}
    (h : lexemes reader text = .error error) : Text.StartsCharacter text error.position :=
  @startsCharacter_of_lexemesFrom reader 0 [] [] text error rfl
    (fun _ h => absurd h List.not_mem_nil) h

/-! ## Lexemes that make up no formula

The reader of trees sees lexemes only. Where a lexeme stands in the text is
told from the texts of those before it, since lexemes cover the text. -/

/-- **The reader of trees gives up at a position**: at the first lexeme that
cannot be used, or at the end when all of them can. The position is told from
the texts of the lexemes before it. -/
inductive GivesUp : List Lexeme → Nat → Prop
  | atLexeme {used : List Lexeme} {next : Lexeme} {more : List Lexeme}
      (hviable : Viable .formula used) (hunusable : Unusable used next more) :
      GivesUp (used ++ next :: more) (Text.byteLength (joined used))
  | atEnd {used : List Lexeme} (hviable : Viable .formula used) :
      GivesUp used (Text.byteLength (joined used))

theorem joined_append (front back : List Lexeme) :
    joined (front ++ back) = joined front ++ joined back :=
  List.flatMap_append

/-- **Lexemes of a text that make up no formula** are wrong where the reader
gives up. The position of an error is that of the lexeme at fault, and a lexeme
stands behind the texts of those before it, which is what `Covers` says. -/
theorem givesUp_of_ofLexemes? {text : List Char} {input : List Lexeme} {error : SyntaxError}
    (hcovers : Covers text input)
    (h : Token.ofLexemes? (Text.byteLength text) input = .error error) :
    ∃ position, error.position = some position ∧ Text.Boundary text position ∧
      GivesUp input position := by
  obtain ⟨used, rest, fault, rfl, rfl, hviable, hunusable⟩ := exists_stop_of_ofLexemes? h
  have hjoined := hcovers.joined_eq
  rw [joined_append] at hjoined
  refine ⟨Text.byteLength (joined used), ?_, ⟨joined used, joined rest, hjoined.symm, rfl⟩, ?_⟩
  · cases rest with
    | nil =>
      have hend : joined used = text := by rw [← hjoined]; exact (List.append_nil _).symm
      rw [hend]
      rfl
    | cons next more =>
      rw [← hcovers.start used next more rfl]
      rfl
  · cases rest with
    | nil =>
      rw [List.append_nil]
      exact .atEnd hviable
    | cons next more => exact .atLexeme hviable (hunusable next more rfl)

/-! ## Nodes that would be refused

A node without a text would be refused with no position. No such node is ever
tried, as every lexeme has a text. -/

/-- **No node over a lexeme is refused** for want of a text, as lexemes have
one. -/
theorem Token.parent?_of_mem {lexeme : Lexeme} (hlexeme : lexeme.text ≠ []) (kind : ParentKind)
    {children : List Token} (h : lexeme.token ∈ children) :
    Token.parent? kind children = .ok (.join kind children) := by
  refine if_neg ?_
  rw [List.isEmpty_iff, Token.joinedText, List.flatMap_eq_nil_iff]
  exact fun hall => hlexeme (hall lexeme.token h)

theorem Token.leaf?_token {lexeme : Lexeme} (hlexeme : lexeme.text ≠ []) :
    Token.leaf? lexeme.kind lexeme.text = .ok lexeme.token :=
  if_neg (mt List.isEmpty_iff.1 hlexeme)

/-! ## Errors

An error is one of the scanner, one of the reader of trees, or that of an empty
text. `WrongAt` names the three, and `position_of_error` says that there are no
others. -/

/-- **What is wrong at a position of a text**: the text is empty and is no
formula, it cannot be split there (`lexemes` fails), or its lexemes cannot be
used beyond (`GivesUp`). -/
inductive WrongAt (reader : Reader) (text : List Char) : SyntaxFault → Nat → Prop
  | empty (htext : text = []) : WrongAt reader text .emptyEntry 0
  | lexical {error : LexicalError} (hlexemes : lexemes reader text = .error error)
      (hstart : Text.StartsCharacter text error.position) :
      WrongAt reader text (.lexical error) error.position
  | syntactic {fault : SyntaxFault} {position : Nat} {input : List Lexeme}
      (hlexemes : lexemes reader text = .ok input) (hcovers : joined input = text)
      (hstop : GivesUp input position) : WrongAt reader text fault position

theorem wrongAt_of_ofFormula? {reader : Reader} {text : List Char} {error : SyntaxError}
    (h : Token.ofFormula? reader text = .error error) :
    ∃ position, error.position = some position ∧ Text.Boundary text position ∧
      WrongAt reader text error.fault position := by
  unfold Token.ofFormula? at h
  cases hlexemes : lexemes reader text with
  | error lexical =>
    rw [hlexemes] at h
    obtain rfl := Except.error.inj h
    have hstart := startsCharacter_of_lexemes hlexemes
    exact ⟨lexical.position, rfl, hstart.boundary, .lexical hlexemes hstart⟩
  | ok input =>
    rw [hlexemes] at h
    have hcovers := covers_of_lexemes hlexemes
    obtain ⟨position, hposition, hboundary, hstop⟩ := givesUp_of_ofLexemes? hcovers h
    exact ⟨position, hposition, hboundary, .syntactic hlexemes hcovers.joined_eq hstop⟩

/-- **Every error of a formula or an entry says where it is.** No node that is
made on the way is refused without saying so. -/
theorem position_of_error (reader : Reader) (text : List Char) :
    (∀ input, lexemes reader text = .ok input → ∀ lexeme ∈ input,
      Token.leaf? lexeme.kind lexeme.text = .ok lexeme.token ∧
        ∀ kind children, lexeme.token ∈ children →
          Token.parent? kind children = .ok (.join kind children)) ∧
      ∀ error,
        Token.ofFormula? reader text = .error error ∨ Token.ofEntry? reader text = .error error →
          ∃ position, error.position = some position ∧ position ≤ Text.byteLength text ∧
            Text.Boundary text position ∧ WrongAt reader text error.fault position := by
  constructor
  · intro input hinput lexeme hlexeme
    have hnonempty := (covers_of_lexemes hinput).nonempty lexeme hlexeme
    exact ⟨Token.leaf?_token hnonempty, fun kind _ => Token.parent?_of_mem hnonempty kind⟩
  · intro error herror
    obtain ⟨position, hposition, hboundary, hwrong⟩ :
        ∃ position, error.position = some position ∧ Text.Boundary text position ∧
          WrongAt reader text error.fault position := by
      rcases herror with hformula | hentry
      · exact wrongAt_of_ofFormula? hformula
      · rcases ofEntry?_eq_error_iff.1 hentry with ⟨rfl, rfl⟩ | ⟨-, hformula⟩
        · exact ⟨0, rfl, ⟨[], [], rfl, rfl⟩, .empty rfl⟩
        · exact wrongAt_of_ofFormula? hformula
    exact ⟨position, hposition, hboundary.le_byteLength, hboundary, hwrong⟩

theorem lexemes_strayComma :
    lexemes Reader.standard ['=', '"', 'é', '"', ','] =
      .ok [⟨.mark (.operator .equal), ['='], 0⟩, ⟨.text ['é'], ['"', 'é', '"'], 1⟩,
        ⟨.mark .separator, [','], 5⟩] := by
  have hequals := @lexemesFrom_of_scans _ _ ['"', 'é', '"', ',']
    (scans_mark (.operator .equal) fun h => absurd h (by decide)) 0 [] [] rfl
  have htext := @lexemesFrom_of_scans _ _ [',']
    (scans_text ['é'] (closed_cons (by decide))) 1 [] [] rfl
  have hcomma := @lexemesFrom_of_scans _ _ []
    (scans_mark .separator fun h => absurd h (by decide)) 5 [] [] rfl
  have hend : lexemesFrom Reader.standard 6 [] [] = .ok [] := by rw [lexemesFrom]
  have hcommas := hcomma.trans (congrArg (Except.map _) hend)
  exact hequals.trans (congrArg (Except.map _) (htext.trans (congrArg (Except.map _) hcommas)))

theorem ofFormula?_strayComma :
    Token.ofFormula? Reader.standard ['=', '"', 'é', '"', ',']
      = .error ⟨.unexpected [','], some 5⟩ := by
  have hunary (rest : List Lexeme) :
      outcome (readUnary 6 (⟨.text ['é'], ['"', 'é', '"'], 1⟩ :: rest))
        = .ok (readPercents (.leaf (.text ['é']) ['"', 'é', '"']) rest) := by
    rw [outcome_readUnary, outcome_readPrimary]
    rfl
  have hbody : outcome (readBinary 6 0 [⟨.text ['é'], ['"', 'é', '"'], 1⟩,
        ⟨.mark .separator, [','], 5⟩])
      = .ok (.leaf (.text ['é']) ['"', 'é', '"'], [⟨.mark .separator, [','], 5⟩]) := by
    rw [outcome_readBinary, hunary]
    exact (outcome_readOperations ..).trans rfl
  rw [Token.ofFormula?, lexemes_strayComma]
  refine (ofLexemes?_cons ..).trans ?_
  show Except.bind (outcome (readBinary 6 0 [_, _])) _ = _
  rw [hbody]
  rfl

/-- A stray comma behind `é` in quotation marks: the error is where the comma
starts, behind five bytes and four characters. -/
theorem position_of_strayComma :
    let text := ['=', '"', 'é', '"', ',']
    Token.leaf? (.mark .separator) [','] = .ok (Mark.leaf .separator) ∧
      Token.ofFormula? Reader.standard text = .error ⟨.unexpected [','], some 5⟩ ∧
      5 ≤ Text.byteLength text ∧ Text.Boundary text 5 ∧
      WrongAt Reader.standard text (.unexpected [',']) 5 := by
  obtain ⟨hnodes, herrors⟩ := position_of_error Reader.standard ['=', '"', 'é', '"', ',']
  obtain ⟨hleaf, -⟩ := hnodes _ lexemes_strayComma ⟨.mark .separator, [','], 5⟩ (by simp)
  obtain ⟨position, hposition, hle, hboundary, hwrong⟩ := herrors _ (.inl ofFormula?_strayComma)
  obtain rfl := Option.some.inj hposition
  exact ⟨hleaf, ofFormula?_strayComma, hle, hboundary, hwrong⟩

end Formula

end Worksheet
