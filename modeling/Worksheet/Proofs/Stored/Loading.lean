import Worksheet.Proofs.Pattern.Sections
import Worksheet.Proofs.Reference.Order
import Worksheet.Proofs.Stored.Formulas
import Worksheet.Proofs.Stored.Patterns

/-!
# What is constructed and what is loaded

The constructors of columns and rows, of ranges, nodes and patterns see to it
that the values they give are sound: within the sheet, with corners in order,
with the text of the children, fit for the purpose. A value is made
(`Cell.IsMade`, `Pattern.Token.Made` and so on) if it came about by these
constructors alone, from the innermost part outwards, and the values that are
made are just the sound ones.

Stored data is another way in. What is read from it has to fit the words that it
was kept in and nothing more, and everything that fits is read (`Datum.loads`).
The constructors are passed by, except where a label is read: it has to be
spelled like one. So a range may be loaded whose first corner is behind its last
one, and a pattern that no purpose allows (`Datum.loaded_unmade`).
-/

namespace Worksheet

/-! ## Cells and ranges

What a constructor can give is characterised by a property of the result: a
cell of the sheet, or corners in order. Loading is measured against it. -/

theorem Column.ofIndex?_eq_ok_iff {index : ℕ} {anchor : Anchor} {column : Column} :
    ofIndex? index anchor = .ok column ↔ index < maxColumns ∧ column = ⟨index, anchor⟩ := by
  unfold ofIndex?
  split
  · exact ⟨fun h => ⟨‹_›, (Except.ok.inj h).symm⟩, fun h => congrArg _ h.2.symm⟩
  · exact ⟨nofun, fun h => absurd h.1 ‹_›⟩

theorem Row.ofIndex?_eq_ok_iff {index : ℕ} {anchor : Anchor} {row : Row} :
    ofIndex? index anchor = .ok row ↔ index < maxRows ∧ row = ⟨index, anchor⟩ := by
  unfold ofIndex?
  split
  · exact ⟨fun h => ⟨‹_›, (Except.ok.inj h).symm⟩, fun h => congrArg _ h.2.symm⟩
  · exact ⟨nofun, fun h => absurd h.1 ‹_›⟩

/-- **A cell is made** of a column and a row that were constructed. -/
structure Cell.IsMade (cell : Cell) : Prop where
  /-- The column was constructed. -/
  column : ∃ index anchor, Column.ofIndex? index anchor = .ok cell.column
  /-- The row was constructed. -/
  row : ∃ index anchor, Row.ofIndex? index anchor = .ok cell.row

/-- **The cells that are made are those of the sheet.** -/
theorem Cell.isMade_iff {cell : Cell} : cell.IsMade ↔ cell.InSheet := by
  constructor
  · rintro ⟨⟨_, _, hcolumn⟩, _, _, hrow⟩
    obtain ⟨hcolumns, hcolumn⟩ := Column.ofIndex?_eq_ok_iff.1 hcolumn
    obtain ⟨hrows, hrow⟩ := Row.ofIndex?_eq_ok_iff.1 hrow
    exact ⟨hcolumn ▸ hcolumns, hrow ▸ hrows⟩
  · rintro ⟨hcolumn, hrow⟩
    exact ⟨⟨_, _, Column.ofIndex?_eq_ok_iff.2 ⟨hcolumn, rfl⟩⟩,
      ⟨_, _, Row.ofIndex?_eq_ok_iff.2 ⟨hrow, rfl⟩⟩⟩

namespace CellRange

/-- **A range is made** by spanning two cells that were. -/
def IsMade (range : CellRange) : Prop :=
  ∃ a b : Cell, a.IsMade ∧ b.IsMade ∧ spanning a b = range

/-- **A range is normal** when its corners are cells of the sheet without
anchors, the first one at or before the last one in both directions. -/
structure IsNormal (range : CellRange) : Prop where
  /-- The first corner is in the sheet. -/
  first : range.first.InSheet
  /-- The last corner is in the sheet. -/
  last : range.last.InSheet
  /-- No corner has an anchor. -/
  relative : range.IsRelative
  /-- The columns are in order. -/
  column_le : range.first.column.index ≤ range.last.column.index
  /-- The rows are in order. -/
  row_le : range.first.row.index ≤ range.last.row.index

/-- **The ranges that are made are the normal ones.** -/
theorem isMade_iff {range : CellRange} : range.IsMade ↔ range.IsNormal := by
  constructor
  · rintro ⟨a, b, ha, hb, rfl⟩
    obtain ⟨hfirst, hlast⟩ := inSheet_spanning (Cell.isMade_iff.1 ha) (Cell.isMade_iff.1 hb)
    obtain ⟨hcolumn, hrow⟩ := le_spanning a b
    exact ⟨hfirst, hlast, ⟨rfl, rfl⟩, hcolumn, hrow⟩
  · rintro ⟨hfirst, hlast, ⟨hrelative, hrelative'⟩, hcolumn, hrow⟩
    refine ⟨range.first, range.last, Cell.isMade_iff.2 hfirst, Cell.isMade_iff.2 hlast, ?_⟩
    rw [spanning_of_le hcolumn hrow, hrelative, hrelative']

end CellRange

/-! ## Patterns -/

namespace Pattern

namespace Token

theorem leaf?_eq_ok_iff {kind : LeafKind} {text : List Char} {token : Token} :
    leaf? kind text = .ok token ↔ text ≠ [] ∧ token = .leaf kind text := by
  rw [leaf?, Ne, ← List.isEmpty_iff]
  split
  · exact ⟨nofun, fun h => absurd ‹_› h.1⟩
  · exact ⟨fun h => ⟨‹_›, (Except.ok.inj h).symm⟩, fun h => congrArg _ h.2.symm⟩

/-- **A tree is made** node by node, every inner node over children that were
made. -/
inductive Made : Token → Prop
  | leaf {kind : LeafKind} {text : List Char} {token : Token}
      (h : Token.leaf? kind text = .ok token) : Made token
  | parent {kind : ParentKind} {children : List Token} {token : Token}
      (hchildren : ∀ child ∈ children, Made child)
      (h : Token.parent? kind children = .ok token) : Made token

/-- **The trees that are made are the whole ones.** -/
theorem made_iff {token : Token} : token.Made ↔ token.Whole := by
  constructor
  · intro h
    induction h with
    | leaf h =>
      obtain ⟨htext, rfl⟩ := leaf?_eq_ok_iff.1 h
      exact .leaf htext
    | parent hchildren h ih => exact (Whole.of_parent? ih h).1
  · intro h
    induction h with
    | leaf htext => exact .leaf (leaf?_eq_ok_iff.2 ⟨htext, rfl⟩)
    | parent hchildren htext ih => exact .parent ih (parent?_eq_ok_iff.2 ⟨htext, rfl⟩)

end Token

/-- **A pattern is made** of a tree that was. -/
def IsMade (pattern : Pattern) : Prop :=
  ∃ kind token, token.Made ∧ ofToken? kind token = .ok pattern

/-- **The patterns that are made** have a whole tree without a fault for their
purpose. -/
theorem isMade_iff {pattern : Pattern} :
    pattern.IsMade ↔ pattern.token.Whole ∧ fault? pattern.kind pattern.token = none := by
  constructor
  · rintro ⟨kind, token, hmade, h⟩
    obtain ⟨hfault, rfl⟩ := ofToken?_eq_ok_iff.1 h
    exact ⟨Token.made_iff.1 hmade, hfault⟩
  · rintro ⟨hwhole, hfault⟩
    exact ⟨_, _, Token.made_iff.2 hwhole, ofToken?_eq_ok_iff.2 ⟨hfault, rfl⟩⟩

end Pattern

/-! ## Formula trees -/

namespace Formula.Token

theorem leaf?_eq_ok_iff {kind : LeafKind} {text : List Char} {token : Token} :
    leaf? kind text = .ok token ↔ text ≠ [] ∧ token = .leaf kind text := by
  rw [leaf?, Ne, ← List.isEmpty_iff]
  split
  · exact ⟨nofun, fun h => absurd ‹_› h.1⟩
  · exact ⟨fun h => ⟨‹_›, (Except.ok.inj h).symm⟩, fun h => congrArg _ h.2.symm⟩

theorem parent?_eq_ok_iff {kind : ParentKind} {children : List Token} {token : Token} :
    parent? kind children = .ok token ↔ joinedText children ≠ [] ∧ token = join kind children := by
  rw [parent?, Ne, ← List.isEmpty_iff]
  split
  · exact ⟨nofun, fun h => absurd ‹_› h.1⟩
  · exact ⟨fun h => ⟨‹_›, (Except.ok.inj h).symm⟩, fun h => congrArg _ h.2.symm⟩

/-- **A tree is made** node by node, every inner node over children that were
made. -/
inductive Made : Token → Prop
  | leaf {kind : LeafKind} {text : List Char} {token : Token}
      (h : Token.leaf? kind text = .ok token) : Made token
  | parent {kind : ParentKind} {children : List Token} {token : Token}
      (hchildren : ∀ child ∈ children, Made child)
      (h : Token.parent? kind children = .ok token) : Made token

/-- **A tree is whole**: no node is without text, and every inner node has the
text of its children. -/
inductive Whole : Token → Prop
  | leaf {kind : LeafKind} {text : List Char} (htext : text ≠ []) : Whole (.leaf kind text)
  | parent {kind : ParentKind} {children : List Token}
      (hchildren : ∀ child ∈ children, Whole child) (htext : joinedText children ≠ []) :
      Whole (.parent kind children (joinedText children))

/-- An inner node of a whole tree has the text of its children. -/
theorem Whole.text_eq {kind : ParentKind} {children : List Token} {text : List Char}
    (h : Whole (.parent kind children text)) : text = joinedText children := by
  cases h
  rfl

/-- **The trees that are made are the whole ones.** -/
theorem made_iff {token : Token} : token.Made ↔ token.Whole := by
  constructor
  · intro h
    induction h with
    | leaf h =>
      obtain ⟨htext, rfl⟩ := leaf?_eq_ok_iff.1 h
      exact .leaf htext
    | parent hchildren h ih =>
      obtain ⟨htext, rfl⟩ := parent?_eq_ok_iff.1 h
      exact .parent ih htext
  · intro h
    induction h with
    | leaf htext => exact .leaf (leaf?_eq_ok_iff.2 ⟨htext, rfl⟩)
    | parent hchildren htext ih => exact .parent ih (parent?_eq_ok_iff.2 ⟨htext, rfl⟩)

end Formula.Token

/-! ## Loading

Loading goes through no constructor. It is therefore the words of a stored
value that bound it, and nothing of what the constructors ask for. -/

namespace Datum

/-- **What stored data is loaded as.** The values of a type are stored by
`toDatum` and read by `ofDatum?`. Some of them are `Storable`, some are `Made`
by constructors, and some are `Sound`. -/
structure Loads {α : Type} (ofDatum? : Datum → Option α) (toDatum : α → Datum)
    (Storable Made Sound : α → Prop) (datum : Datum) : Prop where
  /-- What is read fits the words it is kept in. -/
  storable {a : α} (h : ofDatum? datum = some a) : Storable a
  /-- What is read could have been constructed just when it is sound. -/
  made_iff {a : α} (h : ofDatum? datum = some a) : Made a ↔ Sound a
  /-- Whatever fits the words it is kept in is read from its stored form. -/
  read {a : α} (h : datum = toDatum a) (hstorable : Storable a) : ofDatum? datum = some a

/-- What is read back and what is constructed, for all stored data alike. -/
theorem Loads.of_stored {α : Type} {ofDatum? : Datum → Option α} {toDatum : α → Datum}
    {Storable Made Sound : α → Prop}
    (hread : ∀ {datum a}, ofDatum? datum = some a → Storable a)
    (hstored : ∀ {a}, Storable a → ofDatum? (toDatum a) = some a)
    (hmade : ∀ {a}, Made a ↔ Sound a) (datum : Datum) :
    Loads ofDatum? toDatum Storable Made Sound datum where
  storable := hread
  made_iff _ := hmade
  read h hstorable := h ▸ hstored hstorable

/-- **Loading takes whatever fits its words, and constructing what is sound.**
Stored data is read as a cell, a range, a tree or a pattern whatever it says, as
long as its numbers have no more bits than they are kept in and its times are
those of a clock. What is read could have been constructed just when it is
sound: a cell of the sheet, a range in normal form, a whole tree, a pattern that
fits its purpose. Nothing sees to that, except for labels, which are read just
when their constructor gives them. -/
theorem loads (datum : Datum) :
    Loads Cell.ofDatum? Cell.toDatum Cell.Storable Cell.IsMade Cell.InSheet datum
      ∧ Loads CellRange.ofDatum? CellRange.toDatum
          (fun range => range.first.Storable ∧ range.last.Storable)
          CellRange.IsMade CellRange.IsNormal datum
      ∧ (∀ label, Label.ofDatum? datum = some label ↔
          ∃ text, datum = .text text ∧ Label.ofText? text = .ok label)
      ∧ Loads Pattern.Token.ofDatum? Pattern.Token.toDatum Pattern.Token.Storable
          Pattern.Token.Made Pattern.Token.Whole datum
      ∧ Loads Formula.Token.ofDatum? Formula.Token.toDatum Formula.Token.Storable
          Formula.Token.Made Formula.Token.Whole datum
      ∧ Loads Pattern.ofDatum? Pattern.toDatum (fun pattern => pattern.token.Storable)
          Pattern.IsMade
          (fun pattern => pattern.token.Whole
            ∧ Pattern.fault? pattern.kind pattern.token = none) datum := by
  refine ⟨?cell, ?range, fun _ => Label.ofDatum?_eq_some_iff, ?patternTree, ?formulaTree,
    ?pattern⟩
  case cell =>
    exact .of_stored Cell.storable_of_ofDatum? Cell.ofDatum?_toDatum Cell.isMade_iff datum
  case range =>
    exact .of_stored CellRange.storable_of_ofDatum?
      (fun h => CellRange.ofDatum?_toDatum h.1 h.2) CellRange.isMade_iff datum
  case patternTree =>
    exact .of_stored Pattern.Token.storable_of_ofDatum? Pattern.Token.ofDatum?_toDatum
      Pattern.Token.made_iff datum
  case formulaTree =>
    exact .of_stored Formula.Token.storable_of_ofDatum? Formula.Token.ofDatum?_toDatum
      Formula.Token.made_iff datum
  case pattern =>
    exact .of_stored Pattern.storable_of_ofDatum? Pattern.ofDatum?_toDatum Pattern.isMade_iff
      datum

/-- **Loaded, and not to be constructed**: a cell past the last column, the
range from `B2` to `A1`, a placeholder without text, a formula whose text is not
that of its parts, and a pattern for dates that is a placeholder for a digit. -/
theorem loaded_unmade :
    let outside : Cell := ⟨⟨16384, .relative⟩, ⟨0, .relative⟩⟩
    let reversed : CellRange :=
      ⟨⟨⟨1, .relative⟩, ⟨1, .relative⟩⟩, ⟨⟨0, .relative⟩, ⟨0, .relative⟩⟩⟩
    let textless : Pattern.Token := .leaf .digit []
    let unjoined : Formula.Token := .parent .expression
      [.leaf (.mark (.operator .equal)) ['='], .leaf (.boolean true) "TRUE".toList]
      "=FALSE".toList
    let unfit : Pattern := ⟨.dateFormat, .leaf .digit ['#']⟩
    (Cell.ofDatum? outside.toDatum = some outside ∧ ¬outside.IsMade)
      ∧ (CellRange.ofDatum? reversed.toDatum = some reversed ∧ ¬reversed.IsMade)
      ∧ (Pattern.Token.ofDatum? textless.toDatum = some textless ∧ ¬textless.Made)
      ∧ (Formula.Token.ofDatum? unjoined.toDatum = some unjoined ∧ ¬unjoined.Made)
      ∧ (Pattern.ofDatum? unfit.toDatum = some unfit ∧ ¬unfit.IsMade) := by
  intro outside reversed textless unjoined unfit
  have hdigit : Pattern.LeafKind.digit.Storable := trivial
  refine ⟨⟨Cell.ofDatum?_toDatum ⟨by decide, by decide⟩, fun h => ?_⟩,
    ⟨CellRange.ofDatum?_toDatum ⟨by decide, by decide⟩ ⟨by decide, by decide⟩, fun h => ?_⟩,
    ⟨Pattern.Token.ofDatum?_toDatum (.leaf hdigit _), fun h => ?_⟩,
    ⟨Formula.Token.ofDatum?_toDatum (.parent _ ?_ _), fun h => ?_⟩,
    Pattern.ofDatum?_toDatum (.leaf hdigit _), fun h => ?_⟩
  · exact absurd (Cell.isMade_iff.1 h).column (by decide)
  · exact absurd (CellRange.isMade_iff.1 h).column_le (by decide)
  · exact (Pattern.Token.made_iff.1 h).text_ne_nil rfl
  · -- the text of the node is not that of its leaves joined
    have hequal : (Formula.LeafKind.mark (.operator .equal)).Storable := trivial
    have hboolean : (Formula.LeafKind.boolean true).Storable := trivial
    exact List.forall_mem_cons.2
      ⟨.leaf hequal _, List.forall_mem_singleton.2 (.leaf hboolean _)⟩
  · exact absurd (Formula.Token.made_iff.1 h).text_eq (by decide)
  · exact absurd (Pattern.isMade_iff.1 h).2 nofun

end Datum

end Worksheet
