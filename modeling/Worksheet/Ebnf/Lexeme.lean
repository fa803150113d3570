import Worksheet.Text.Basic
import Worksheet.Text.Blank

/-!
# Lexemes of grammar sources

A grammar source is names, quoted literals and single marks, with blanks and
comments anywhere between them. Each lexeme carries the byte position it starts
at. What cannot be read (a comment or a literal that does not end, a literal
with nothing in it) becomes a lexeme too, so that the reader can report it when,
and only when, it gets that far.
-/

namespace Worksheet.Ebnf

/-- A piece of a grammar source. -/
inductive Lexeme where
  /-- A name of a rule or a terminal. -/
  | name (text : List Char)
  /-- A literal, without its quotation marks. -/
  | literal (text : List Char)
  /-- A single character that is none of the above. -/
  | mark (char : Char)
  /-- A comment without an end. -/
  | openComment
  /-- A literal without an end. -/
  | openLiteral
  /-- A literal of no characters. -/
  | emptyLiteral
  deriving DecidableEq, Repr

/-- A lexeme and the byte position it starts at. -/
structure Placed where
  /-- The lexeme. -/
  lexeme : Lexeme
  /-- Its position in the source. -/
  position : Nat
  deriving DecidableEq, Repr

/-- Characters a name may start with. -/
def isNameStart (c : Char) : Bool :=
  c.isAlpha || c == '_'

/-- Characters a name may go on with. -/
def isNamePart (c : Char) : Bool :=
  c.isAlphanum || c == '_'

/-- What follows the end of the comment a text is inside of. -/
def afterComment? : List Char → Option (List Char)
  | [] => none
  | '*' :: ')' :: rest => some rest
  | _ :: rest => afterComment? rest

theorem length_afterComment? {text rest : List Char} (h : afterComment? text = some rest) :
    rest.length < text.length := by
  fun_induction afterComment? text with
  | case1 => simp at h
  | case2 =>
    obtain rfl := Option.some.inj h
    simp only [List.length_cons]
    omega
  | case3 _ _ _ ih => have := ih h; simp; omega

/-- The text of a literal up to its closing quotation mark, and what follows
that. -/
def literalBody? : List Char → Option (List Char × List Char)
  | [] => none
  | '"' :: rest => some ([], rest)
  | c :: rest => (literalBody? rest).map fun (body, rest) => (c :: body, rest)

theorem length_literalBody? {text body rest : List Char}
    (h : literalBody? text = some (body, rest)) : rest.length < text.length := by
  fun_induction literalBody? text generalizing body with
  | case1 => simp at h
  | case2 => simp_all
  | case3 c text _ ih =>
    obtain ⟨⟨inner, after⟩, hinner, heq⟩ := Option.map_eq_some_iff.1 h
    obtain ⟨-, rfl⟩ := Prod.mk.inj heq
    have := ih hinner
    simp; omega

/-- **The lexemes of the rest of a source.** There is always an answer: what
cannot be read becomes a lexeme too, and is a fault only to a reader that gets
there. -/
def lexemes (source : List Char) (text : List Char) : List Placed :=
  let here (lexeme : Lexeme) : Placed := ⟨lexeme, Text.position source text⟩
  match text with
  | [] => []
  | '(' :: '*' :: inside =>
    match _h : afterComment? inside with
    | some rest => lexemes source rest
    | none => [here .openComment]
  | '"' :: inside =>
    match _h : literalBody? inside with
    | some ([], rest) => here .emptyLiteral :: lexemes source rest
    | some (body, rest) => here (.literal body) :: lexemes source rest
    | none => [here .openLiteral]
  | c :: rest =>
    if Text.isAsciiBlank c then lexemes source rest
    else if isNameStart c then
      here (.name (c :: rest.takeWhile isNamePart)) :: lexemes source (rest.dropWhile isNamePart)
    else here (.mark c) :: lexemes source rest
termination_by text.length
decreasing_by
  · have := length_afterComment? _h; simp; omega
  · have := length_literalBody? _h; simp; omega
  · have := length_literalBody? _h; simp; omega
  · simp
  · have := (List.dropWhile_sublist isNamePart (l := rest)).length_le; simp; omega
  · simp

end Worksheet.Ebnf
