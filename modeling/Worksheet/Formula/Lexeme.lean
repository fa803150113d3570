import Worksheet.Formula.Reader
import Worksheet.Formula.Token

/-!
# Lexemes of formulas

A formula is split into lexemes: quoted texts, error codes, numbers, names,
marks, and the blanks between them. The first character of a lexeme decides what
it is. Nothing is left out, so the texts of the lexemes make up the formula.

Parentheses are matched on the way. Whatever is read from the lexemes later
finds every group closed, or something else at fault first.
-/

namespace Worksheet.Formula

/-- A leaf, and the byte position its text starts at. -/
structure Lexeme where
  /-- What it stands for. -/
  kind : LeafKind
  /-- Its characters. -/
  text : List Char
  /-- Where it starts. -/
  start : Nat

namespace Lexeme

/-- A lexeme as a leaf of a tree. -/
def token (lexeme : Lexeme) : Token :=
  .leaf lexeme.kind lexeme.text

/-- Whether a lexeme is blank. -/
def isBlank (lexeme : Lexeme) : Bool :=
  lexeme.kind.isBlank

end Lexeme

/-- A quoted text after its opening mark, and what follows the closing one. A
mark inside is written twice. -/
def quotedText? : List Char → Option (List Char × List Char)
  | [] => none
  | '"' :: '"' :: rest => (quotedText? rest).map fun (text, after) => ('"' :: text, after)
  | c :: rest =>
    if c = '"' then some ([], rest)
    else (quotedText? rest).map fun (text, after) => (c :: text, after)

/-- What follows a quoted text is shorter than what follows its opening mark. -/
theorem length_quotedText? {input text rest : List Char}
    (h : quotedText? input = some (text, rest)) : rest.length < input.length := by
  fun_induction quotedText? input generalizing text rest with
  | case1 => simp at h
  | case2 input ih =>
    obtain ⟨⟨inner, after⟩, hinner, heq⟩ := Option.map_eq_some_iff.1 h
    obtain ⟨rfl, rfl⟩ := Prod.mk.inj heq
    have := ih hinner
    simp; omega
  | case3 input => simp_all
  | case4 c input hne hc ih =>
    obtain ⟨⟨inner, after⟩, hinner, heq⟩ := Option.map_eq_some_iff.1 h
    obtain ⟨rfl, rfl⟩ := Prod.mk.inj heq
    have := ih hinner
    simp; omega

/-- A word: the name of a function before an opening parenthesis, else a boolean
or a label. Nothing that starts with a dollar sign is one. -/
def scanWord (first : Char) (rest : List Char) : Except LexicalFault (LeafKind × List Char) :=
  let name := first :: rest.takeWhile Label.isPart
  let after := rest.dropWhile Label.isPart
  if first = '$' then .error (.reference name)
  else if after.head? = some '(' then .ok (.functionName name, after)
  else
    match Converter.boolean? name with
    | some value => .ok (.boolean value, after)
    | none =>
      match Label.ofText? name with
      | .ok label => .ok (.label label, after)
      | .error fault => .error (.label fault)

/-- A cell, if no further character of a name follows it, or else a word
(`scanWord`). What `Cell.scan` refuses because it lies outside the sheet is a
word as well. -/
def scanName (first : Char) (rest : List Char) : Except LexicalFault (LeafKind × List Char) :=
  match Cell.scan (first :: rest) with
  | .ok (some (cell, after)) =>
    if after.head?.any fun c => Label.isPart c || c == '(' then scanWord first rest
    else .ok (.cell cell, after)
  | _ => scanWord first rest

/-- What the lexeme at the front of a text stands for, and what follows it. -/
def scan (reader : Reader) (first : Char) (rest : List Char) :
    Except LexicalFault (LeafKind × List Char) :=
  if first = '"' then
    match quotedText? rest with
    | some (text, after) => .ok (.text text, after)
    | none => .error .openText
  else if first = '#' then
    match CellErrorKind.scan? (first :: rest) with
    | some (kind, after) => .ok (.error kind, after)
    | none => .error .errorCode
  else if Text.isBlank first then .ok (.blank, rest.dropWhile Text.isBlank)
  else if first.isDigit || first == reader.signs.decimalPoint then
    match reader.readNumber? (first :: rest) with
    | some (value, after) => .ok (.number value, after)
    | none => .error .number
  else if first = '$' || Label.isStart first then scanName first rest
  else
    match Mark.scan? (first :: rest) with
    | some (mark, after) => .ok (.mark mark, after)
    | none => .error (.character first)

/-- A word takes at least one character. -/
theorem length_scanWord {first : Char} {rest after : List Char} {kind : LeafKind}
    (h : scanWord first rest = .ok (kind, after)) : after.length < (first :: rest).length := by
  have hdrop := (List.dropWhile_suffix Label.isPart (l := rest)).length_le
  have : after = rest.dropWhile Label.isPart := by
    unfold scanWord at h
    grind
  simp [this]; omega

/-- A lexeme takes at least one character. -/
theorem length_scan {reader : Reader} {first : Char} {rest after : List Char} {kind : LeafKind}
    (h : scan reader first rest = .ok (kind, after)) : after.length < (first :: rest).length := by
  unfold scan at h
  split at h
  · split at h
    · rename_i text after' hquoted
      obtain ⟨rfl, rfl⟩ := Prod.mk.inj (Except.ok.inj h)
      have := length_quotedText? hquoted
      simp; omega
    · simp at h
  split at h
  · split at h
    · rename_i code after' hcode
      obtain ⟨rfl, rfl⟩ := Prod.mk.inj (Except.ok.inj h)
      exact CellErrorKind.length_scan? hcode
    · simp at h
  split at h
  · obtain ⟨rfl, rfl⟩ := Prod.mk.inj (Except.ok.inj h)
    have := (List.dropWhile_suffix Text.isBlank (l := rest)).length_le
    simp; omega
  split at h
  · split at h
    · rename_i value after' hnumber
      obtain ⟨rfl, rfl⟩ := Prod.mk.inj (Except.ok.inj h)
      exact Read.NumberReader.length_readFront? hnumber
    · simp at h
  split at h
  · unfold scanName at h
    split at h
    · rename_i cell after' hcell
      split at h
      · exact length_scanWord h
      · obtain ⟨rfl, rfl⟩ := Prod.mk.inj (Except.ok.inj h)
        exact Cell.length_scan hcell
    · exact length_scanWord h
  split at h
  · rename_i mark after' hmark
    obtain ⟨rfl, rfl⟩ := Prod.mk.inj (Except.ok.inj h)
    rw [Mark.eq_append_of_scan? hmark]
    have := List.length_pos_iff.2 mark.text_ne_nil
    simp; omega
  · simp at h

/-- The parentheses still open after a lexeme at a position, the last one first;
nothing when it closes none, which is a fault of the text. -/
def openAfter? (opened : List Nat) (position : Nat) (kind : LeafKind) : Option (List Nat) :=
  if kind.isMark .parenthesisOpen then some (position :: opened)
  else if kind.isMark .parenthesisClose then
    match opened with
    | [] => none
    | _ :: opened => some opened
  else some opened

/-- The lexemes of a text that starts at a position, with parentheses open
before it. -/
def lexemesFrom (reader : Reader) (position : Nat) (opened : List Nat) (input : List Char) :
    Except LexicalError (List Lexeme) :=
  match input with
  | [] =>
    match opened with
    | [] => .ok []
    | last :: _ => .error ⟨.opener, last⟩
  | first :: rest =>
    match _h : scan reader first rest with
    | .error fault => .error ⟨fault, position⟩
    | .ok (kind, after) =>
      match openAfter? opened position kind with
      | none => .error ⟨.closer, position⟩
      | some opened =>
        let text := Text.before (first :: rest) after
        match lexemesFrom reader (position + Text.byteLength text) opened after with
        | .error e => .error e
        | .ok lexemes => .ok (⟨kind, text, position⟩ :: lexemes)
termination_by input.length
decreasing_by exact length_scan ‹_›

/-- **The lexemes of a text**: their texts make it up, and their parentheses
match. -/
def lexemes (reader : Reader) (input : List Char) : Except LexicalError (List Lexeme) :=
  lexemesFrom reader 0 [] input

end Worksheet.Formula
