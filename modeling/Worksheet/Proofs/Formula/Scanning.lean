import Worksheet.Formula.Expression
import Worksheet.Proofs.Formula.Parsing
import Worksheet.Proofs.Reference.Selections

/-!
# Lexemes are read back

What a lexeme is written with is scanned as that lexeme, whatever follows it, as
long as the following text does not go on with it: after an operand comes the
end of the formula, an operator, a percent sign, a closing parenthesis, a comma
or a colon (`Closed`), and an operator is not followed by a sign that makes
another one of it. `Scans` says that a text is scanned as a lexeme before a
rest, and there is one lemma for each kind of lexeme.

Only names are delicate. A word may begin like a cell, and is one if nothing of
a name and no parenthesis follows; so a label has to be something else than a
cell (`Label.fault?` sees to that), and the name of a function may be one, since
its parenthesis follows.
-/

/-! ## What a reader is made of -/

namespace Worksheet

theorem Converter.locale_eq {patterns : ConverterPatterns} {locale : Locale}
    {converter : Converter} (h : Converter.ofPatterns? patterns locale = .ok converter) :
    converter.locale = locale := by
  unfold Converter.ofPatterns? at h
  obtain ⟨numberFormat, -, h⟩ := exists_of_bind_eq_ok h
  obtain ⟨dateFormat, -, h⟩ := exists_of_bind_eq_ok h
  obtain ⟨dateTimeFormat, -, h⟩ := exists_of_bind_eq_ok h
  obtain ⟨timeFormat, -, h⟩ := exists_of_bind_eq_ok h
  obtain ⟨textFormat, -, h⟩ := exists_of_bind_eq_ok h
  obtain ⟨numberReader, -, h⟩ := exists_of_bind_eq_ok h
  obtain ⟨dateReader, -, h⟩ := exists_of_bind_eq_ok h
  obtain ⟨dateTimeReader, -, h⟩ := exists_of_bind_eq_ok h
  obtain ⟨timeReader, -, h⟩ := exists_of_bind_eq_ok h
  rw [← Except.ok.inj h]

namespace Formula.Reader

/-- **A reader has the signs of its locale**, and reads numbers by its pattern
for them. -/
theorem signs_and_literals {patterns : ConverterPatterns} {locale : Locale}
    {literals : List Char} {reader : Reader}
    (h : Reader.ofPatterns? patterns locale literals = .ok reader) :
    reader.signs = locale.numbers ∧
      Converter.numberReaderOf? literals = .ok reader.literals := by
  unfold Reader.ofPatterns? at h
  obtain ⟨converter, hconverter, h⟩ := exists_of_bind_eq_ok h
  obtain ⟨reading, hreading, h⟩ := exists_of_bind_eq_ok h
  rw [← Except.ok.inj h]
  exact ⟨congrArg Locale.numbers (Converter.locale_eq hconverter), hreading⟩

theorem ofPatterns?_standard :
    Reader.ofPatterns? .standard .standard standardLiterals = .ok Reader.standard :=
  eq_ok_get isSome_ofPatterns?_standard

theorem signs_standard : Reader.standard.signs = NumberSigns.standard :=
  (signs_and_literals ofPatterns?_standard).1

end Formula.Reader

end Worksheet

namespace Worksheet.Formula

/-! ## What follows an operand

Operands are written side by side with operators and parentheses, never with
other operands. `closers` are the characters that can come next, and none of
them goes on with a number, a name or a cell. -/

/-- The characters that may stand right after an operand: operators, the percent
sign, and what closes or goes on with a group, a call or a range. -/
def closers : List Char :=
  "+-*/^=<>%),:".toList

/-- A text that may stand right after an operand, if anything stands there at
all. -/
def Closed (rest : List Char) : Prop :=
  ∀ c ∈ rest.head?, c ∈ closers

theorem closed_nil : Closed [] :=
  fun _ h => absurd h (Option.not_mem_none _)

theorem closed_cons {c : Char} {rest : List Char} (h : c ∈ closers) : Closed (c :: rest) :=
  fun _ hd => Option.mem_some.1 hd ▸ h

/-- **What follows an operand stops every class without closers**: numbers,
names and cells end there. -/
theorem Closed.stops {rest : List Char} (h : Closed rest) {p : Char → Bool}
    (hp : closers.any p = false) : Text.Stops p rest := by
  cases rest with
  | nil => rfl
  | cons c rest =>
    refine Text.stops_cons.2 (Bool.eq_false_iff.2 fun hc => ?_)
    exact Bool.false_ne_true (hp.symm.trans (List.any_eq_true.2 ⟨c, h c rfl, hc⟩))

/-- What follows an operand is of every class that has all closers. -/
theorem Closed.all_head? {rest : List Char} (h : Closed rest) {p : Char → Bool}
    (hp : closers.all p = true) : rest.head?.all p = true := by
  cases rest with
  | nil => rfl
  | cons c rest => exact List.all_eq_true.1 hp c (h c rfl)

theorem Closed.head?_ne {rest : List Char} (h : Closed rest) {c : Char} (hc : c ∉ closers) :
    rest.head? ≠ some c :=
  fun heq => hc (h c heq)

/-! ## Scanning

`Scans` is said of a text before a rest, and shown for each kind of lexeme,
with what that kind needs of the rest. -/

/-- A text is scanned as a lexeme before a rest. The text has a first character,
which is what `scan` goes by. -/
def Scans (kind : LeafKind) (text rest : List Char) : Prop :=
  ∃ first tail, text = first :: tail ∧
    scan Reader.standard first (tail ++ rest) = .ok (kind, rest)

/-- Doubling the marks of a quoted text is undone by reading it, by induction on
the text. What follows must not begin with another mark, which would go on with
the text. -/
theorem quotedText?_append (value : List Char) {rest : List Char}
    (h : rest.head? ≠ some '"') :
    quotedText? (value.flatMap (fun c => if c = '"' then ['"', '"'] else [c]) ++ '"' :: rest)
      = some (value, rest) := by
  induction value with
  | nil =>
    rw [List.flatMap_nil, List.nil_append, quotedText?.eq_3 '"' rest]
    · exact if_pos rfl
    · rintro after heq rfl
      exact h rfl
  | cons c value ih =>
    rw [List.flatMap_cons, List.append_assoc]
    by_cases hc : c = '"'
    · subst hc
      rw [if_pos rfl, List.cons_append, List.cons_append, List.nil_append, quotedText?, ih]
      rfl
    · rw [if_neg hc, List.singleton_append, quotedText?.eq_3 c _ fun _ heq => absurd heq hc,
        if_neg hc, ih]
      rfl

/-- **A quoted text** is scanned as the text. -/
theorem scans_text (value : List Char) {rest : List Char} (h : Closed rest) :
    Scans (.text value) (Expression.renderText value) rest := by
  refine ⟨'"', value.flatMap (fun c => if c = '"' then ['"', '"'] else [c]) ++ ['"'],
    rfl, ?_⟩
  rw [scan, if_pos rfl, List.append_assoc, List.singleton_append,
    quotedText?_append value (h.head?_ne (by decide))]

theorem scan?_text_append (kind : CellErrorKind) (rest : List Char) :
    CellErrorKind.scan? (kind.text ++ rest) = some (kind, rest) := by
  cases kind <;> rfl

/-- **An error code** is scanned as the error. -/
theorem scans_error (kind : CellErrorKind) (rest : List Char) :
    Scans (.error kind) kind.text rest := by
  have hfirst : kind.text = '#' :: kind.text.tail := by cases kind <;> rfl
  refine ⟨'#', kind.text.tail, hfirst, ?_⟩
  rw [scan, if_neg (by decide), if_pos rfl, ← List.cons_append, ← hfirst, scan?_text_append]

/-! ## Names

A word is tried as a cell, as the name of a function, as a boolean and as a
label, in this order. For each of them it has to be shown that none of those
before it takes the text. -/

/-- The characters a name or a cell starts with start nothing else: no text,
error, blank or number. -/
theorem start_ne {c : Char} (h : c = '$' ∨ Label.isStart c = true) :
    c ≠ '"' ∧ c ≠ '#' ∧ Text.isBlank c = false ∧ c.isDigit = false ∧ (c == '.') = false := by
  have hcode : c.toNat = 36 ∨ c.toNat = 92 ∨ c.toNat = 95 ∨ (65 ≤ c.toNat ∧ c.toNat ≤ 90)
      ∨ (97 ≤ c.toNat ∧ c.toNat ≤ 122) := by
    rcases h with rfl | h
    · exact Or.inl rfl
    · simp only [Label.isStart, Bool.or_eq_true, Text.isAlpha_iff_toNat, beq_iff_eq] at h
      rcases h with (h | rfl) | rfl
      · exact Or.inr (Or.inr (Or.inr h))
      · exact Or.inr (Or.inr (Or.inl rfl))
      · exact Or.inr (Or.inl rfl)
  -- the other signs have smaller codes, or that of the point
  have hne : ∀ d : Char, d.toNat < 36 ∨ d.toNat = 46 → c ≠ d := by
    rintro d hd rfl
    omega
  refine ⟨hne _ (by decide), hne _ (by decide), ?_, ?_, ?_⟩
  · simp only [Text.isBlank, Bool.or_eq_false_iff, Bool.and_eq_false_iff, decide_eq_false_iff_not,
      beq_eq_false_iff_ne]
    omega
  · rw [Bool.eq_false_iff]
    intro hdigit
    have hbounds := Char.isDigit_iff_toNat.1 hdigit
    simp at hbounds
    omega
  · rw [beq_eq_false_iff_ne]
    exact hne _ (by decide)

theorem scan_eq_scanName {first : Char} (h : first = '$' ∨ Label.isStart first = true)
    (rest : List Char) : scan Reader.standard first rest = scanName first rest := by
  obtain ⟨hquote, hsharp, hblank, hdigit, hpoint⟩ := start_ne h
  have hpoint' : (first == Reader.standard.signs.decimalPoint) = false := by
    rw [Reader.signs_standard]
    exact hpoint
  have hname : (first = '$' || Label.isStart first) = true := by simpa using h
  rw [scan, if_neg hquote, if_neg hsharp, hblank, if_neg Bool.false_ne_true, hdigit, hpoint',
    Bool.or_self, if_neg Bool.false_ne_true, if_pos hname]

/-- **A cell** is scanned as the cell. It is written without what might be taken
for more of a name. -/
theorem scans_cell {cell : Cell} (h : cell.InSheet) {rest : List Char} (hrest : Closed rest) :
    Scans (.cell cell) cell.text rest := by
  obtain ⟨first, tail, htext, hfirst⟩ := cell.text_eq_cons
  refine ⟨first, tail, htext, ?_⟩
  have hscan := Cell.scan_text_append h (hrest.stops (p := Cell.isPart) (by decide))
  have hstop : (rest.head?.any fun c => Label.isPart c || c == '(') = false :=
    (hrest.stops (by decide)).any_eq_false
  have hstart : first = '$' ∨ Label.isStart first = true :=
    hfirst.imp_right fun halpha => by rw [Label.isStart, halpha, Bool.true_or, Bool.true_or]
  rw [htext, List.cons_append] at hscan
  rw [scan_eq_scanName hstart, scanName, hscan]
  simp only [hstop, Bool.false_eq_true, if_false]

/-- **The characters of a name.** Labels, booleans and functions are made of
these. -/
structure IsName (first : Char) (tail : List Char) : Prop where
  /-- It starts like a label. -/
  start : Label.isStart first = true
  /-- It goes on like one. -/
  part : ∀ c ∈ tail, Label.isPart c = true

/-- **A name that is not a cell is a word**, and so is one before a
parenthesis. -/
theorem scan_eq_scanWord {first : Char} {tail rest : List Char} (h : IsName first tail)
    (hstop : Text.Stops Cell.isPart rest)
    (hcell : rest.head? = some '('
      ∨ ∀ cell, Cell.scan (first :: tail) ≠ .ok (some (cell, []))) :
    scan Reader.standard first (tail ++ rest) = scanWord first (tail ++ rest) := by
  rw [scan_eq_scanName (Or.inr h.start), scanName, ← List.cons_append,
    Cell.scan_append _ hstop]
  cases hscan : Cell.scan (first :: tail) with
  | error e => rfl
  | ok found =>
    cases found with
    | none => rfl
    | some found =>
      obtain ⟨cell, after⟩ := found
      -- what is left of the name, or else the parenthesis, shows that it goes on
      have hgoes : ((after ++ rest).head?.any fun c => Label.isPart c || c == '(') = true := by
        cases after with
        | nil =>
          rcases hcell with hcell | hcell
          · rw [List.nil_append, hcell]
            rfl
          · exact absurd hscan (hcell cell)
        | cons d after =>
          obtain ⟨front, hfront⟩ := Cell.exists_append_of_scan hscan
          have hlength := Cell.length_scan hscan
          cases front with
          | nil =>
            rw [hfront] at hlength
            exact absurd hlength (Nat.lt_irrefl _)
          | cons f front =>
            obtain ⟨-, rfl⟩ := List.cons.inj hfront
            have hd := h.part d (List.mem_append_right _ List.mem_cons_self)
            show (Label.isPart d || d == '(') = true
            rw [hd, Bool.true_or]
      simp only [withRest, Except.map, Option.map_some, hgoes, if_true]

/-- The name a word is made of, and what follows it. Before a parenthesis it is
a function, else a boolean if it is spelled like one, else a label. -/
theorem scanWord_append {first : Char} {tail rest : List Char} (h : IsName first tail)
    (hstop : Text.Stops Label.isPart rest) :
    scanWord first (tail ++ rest)
      = if rest.head? = some '(' then .ok (.functionName (first :: tail), rest)
        else
          match Converter.boolean? (first :: tail) with
          | some value => .ok (.boolean value, rest)
          | none =>
            match Label.ofText? (first :: tail) with
            | .ok label => .ok (.label label, rest)
            | .error fault => .error (.label fault) := by
  have hfirst : first ≠ '$' := by
    rintro rfl
    exact absurd h.start (by decide)
  have hrun := Text.takeRun_append_of_all h.part hstop
  rw [Text.takeRun, Prod.mk.injEq] at hrun
  unfold scanWord
  dsimp only
  rw [hrun.1, hrun.2]
  exact if_neg hfirst

/-- **The name of a function**, before its parenthesis, even when it is spelled
like a cell. -/
theorem scans_functionName {first : Char} {tail : List Char} (h : IsName first tail)
    (rest : List Char) :
    Scans (.functionName (first :: tail)) (first :: tail) ('(' :: rest) := by
  refine ⟨first, tail, rfl, ?_⟩
  rw [scan_eq_scanWord h (Text.stops_cons.2 (by decide)) (Or.inl rfl),
    scanWord_append h (Text.stops_cons.2 (by decide)), List.head?_cons, if_pos rfl]

/-- **A boolean** is scanned as the boolean, since a word is tried as one before
it is a label. -/
theorem scans_boolean (value : Bool) {rest : List Char} (h : Closed rest) :
    Scans (.boolean value) (Value.booleanText value) rest := by
  have hword : ∃ first tail, Value.booleanText value = first :: tail ∧
      IsName first tail ∧ Cell.scan (first :: tail) = .ok none ∧
      Converter.boolean? (first :: tail) = some value := by
    cases value
    · exact ⟨'F', ['A', 'L', 'S', 'E'], rfl, ⟨rfl, List.all_eq_true.1 rfl⟩, rfl, rfl⟩
    · exact ⟨'T', ['R', 'U', 'E'], rfl, ⟨rfl, List.all_eq_true.1 rfl⟩, rfl, rfl⟩
  obtain ⟨first, tail, htext, hname, hcell, hboolean⟩ := hword
  refine ⟨first, tail, htext, ?_⟩
  rw [scan_eq_scanWord hname (h.stops (by decide)) (Or.inr fun cell => by rw [hcell]; simp),
    scanWord_append hname (h.stops (by decide)), if_neg (h.head?_ne (by decide)), hboolean]

/-! ## Labels -/

/-- A valid spelling is a name and no cell. `Label.fault?` refuses everything
else. -/
theorem isName_of_valid {text : List Char} (h : Label.fault? text = none) :
    ∃ first tail, text = first :: tail ∧ IsName first tail ∧
      ∀ cell, Cell.scan (first :: tail) ≠ .ok (some (cell, [])) := by
  obtain ⟨first, tail, rfl, hstart, hpart, fault, hfault⟩ := Label.exists_of_valid h
  refine ⟨first, tail, rfl, ⟨hstart, hpart⟩, fun cell hscan => ?_⟩
  rw [Cell.ofText?, hscan] at hfault
  cases hfault

/-- **A label** that is not spelled like a boolean is scanned as the label. -/
theorem scans_label {label : Label} (hlabel : Converter.boolean? label.text = none)
    {rest : List Char} (h : Closed rest) : Scans (.label label) label.text rest := by
  obtain ⟨first, tail, htext, hname, hcell⟩ := isName_of_valid label.valid
  refine ⟨first, tail, htext, ?_⟩
  rw [scan_eq_scanWord hname (h.stops (by decide)) (Or.inr hcell),
    scanWord_append hname (h.stops (by decide)), if_neg (h.head?_ne (by decide)),
    ← htext, hlabel, Label.ofText?_text]

/-! ## Marks

The longest mark is scanned. Three marks begin longer ones, and for these the
next character matters. -/

/-- Whether a mark begins another one: `>=`, `<=` and `<>` begin with marks of
their own. -/
def Mark.IsOpen (mark : Mark) : Prop :=
  mark = .operator .greater ∨ mark = .operator .less

instance (mark : Mark) : Decidable mark.IsOpen :=
  inferInstanceAs (Decidable (_ ∨ _))

/-- A text that makes no other mark of an open one. -/
def Apart (rest : List Char) : Prop :=
  rest.head? ≠ some '=' ∧ rest.head? ≠ some '>'

/-- The longest mark is the one that is written, if nothing makes another of
it. -/
theorem scan?_mark_append (mark : Mark) {rest : List Char} (h : mark.IsOpen → Apart rest) :
    Mark.scan? (mark.text ++ rest) = some (mark, rest) := by
  cases mark with
  | operator sign =>
    cases sign with
    | greater =>
      cases rest with
      | nil => rfl
      | cons c rest =>
        have hc : '=' ≠ c := fun heq => (h (Or.inl rfl)).1 (heq ▸ rfl)
        simp [Mark.scan?, Mark.all, Mark.text, Text.drop?, List.findSome?, hc]
    | less =>
      cases rest with
      | nil => rfl
      | cons c rest =>
        have hequal : '=' ≠ c := fun heq => (h (Or.inr rfl)).1 (heq ▸ rfl)
        have hgreater : '>' ≠ c := fun heq => (h (Or.inr rfl)).2 (heq ▸ rfl)
        simp [Mark.scan?, Mark.all, Mark.text, Text.drop?, List.findSome?, hequal, hgreater]
    | _ => rfl
  | _ => rfl

/-- **A mark** is scanned as the mark. -/
theorem scans_mark (mark : Mark) {rest : List Char} (h : mark.IsOpen → Apart rest) :
    Scans (.mark mark) mark.text rest := by
  have hstart : ∃ first tail, mark.text = first :: tail ∧ first ≠ '"' ∧ first ≠ '#' ∧
      Text.isBlank first = false ∧ first.isDigit = false ∧
      (first == NumberSigns.standard.decimalPoint) = false ∧
      (first = '$' || Label.isStart first) = false := by
    cases mark with
    | operator sign => cases sign <;> exact ⟨_, _, rfl, by decide⟩
    | _ => exact ⟨_, _, rfl, by decide⟩
  obtain ⟨first, tail, htext, hquote, hsharp, hblank, hdigit, hpoint, hname⟩ := hstart
  have hscan := scan?_mark_append mark h
  rw [htext, List.cons_append] at hscan
  refine ⟨first, tail, htext, ?_⟩
  rw [scan, if_neg hquote, if_neg hsharp, hblank, if_neg Bool.false_ne_true, hdigit,
    Reader.signs_standard, hpoint, Bool.or_self, if_neg Bool.false_ne_true, hname,
    if_neg Bool.false_ne_true, hscan]

end Worksheet.Formula
