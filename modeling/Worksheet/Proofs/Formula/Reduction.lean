import Worksheet.Proofs.Formula.Freshness
import Worksheet.Proofs.Formula.Rereading

/-!
# What can go wrong on the way to a value

Taking a tree to an expression can fail in many ways, but only for trees that
were put together by hand. A tree that was read, from a formula or from an
entry, always comes to an expression (`Token.IsRead.exists_expression`).

An entry can only fail to be read when it is empty, or when it is a formula and
that fails (`ofEntry?_eq_error_iff`). So the value of a formula whose tree, if
it has one, was read is only missed for two reasons: its text is wrong, or it is
too long for the tree it gives (`evaluate_eq_error_iff`).
-/

namespace Worksheet.Formula

variable {reader : Reader} {text : List Char} {token : Token}

/-! ## Trees that were read

`Token.IsRead` is said for any reader, since what a tree comes to does not
depend on the reader it was read with. -/

/-- **A tree was read** from some text, as a formula or as an entry, by whatever
reader. Trees that were put together by hand may be none of these. -/
def Token.IsRead (token : Token) : Prop :=
  ∃ reader text, Token.ofFormula? reader text = .ok token ∨ Token.ofEntry? reader text = .ok token

theorem Expression.inherited_true : Inherited (fun _ => True) (fun _ => True) := by
  constructor <;> intros <;> trivial

theorem exists_expression_of_ofFormula? (h : Token.ofFormula? reader text = .ok token) :
    ∃ e, token.expression? = .ok e := by
  obtain ⟨input, -, hshaped, -, -⟩ := ofFormula?_eq_ok_iff.1 h
  obtain ⟨e, he, -⟩ := hshaped.exists_expression Expression.inherited_true fun _ _ _ => trivial
  exact ⟨e, he⟩

theorem LeafKind.exists_expression_of_ofValue? {value : Value} {kind : LeafKind}
    (h : LeafKind.ofValue? value = some kind) (text : List Char) :
    ∃ e, kind.expression? text = .ok e := by
  cases value with
  | dateTime value => exact Option.some.inj h ▸ ⟨.dateTime value, rfl⟩
  | date value => exact Option.some.inj h ▸ ⟨.date value, rfl⟩
  | time value => exact Option.some.inj h ▸ ⟨.time value, rfl⟩
  | number value => exact Option.some.inj h ▸ ⟨.number value, rfl⟩
  | _ => cases h

theorem LeafKind.exists_expression_ofEntry (reader : Reader) (entry text : List Char) :
    ∃ e, (LeafKind.ofEntry reader entry).expression? text = .ok e := by
  unfold LeafKind.ofEntry
  cases hvalue : (entryKinds.findSome? (reader.converter.read? entry)).bind ofValue? with
  | none => exact ⟨.text entry, rfl⟩
  | some kind =>
    obtain ⟨value, -, hkind⟩ := Option.bind_eq_some_iff.1 hvalue
    exact exists_expression_of_ofValue? hkind text

theorem exists_expression_of_ofEntry? (h : Token.ofEntry? reader text = .ok token) :
    ∃ e, token.expression? = .ok e := by
  unfold Token.ofEntry? at h
  split at h
  · cases h
  · exact exists_expression_of_ofFormula? h
  · rename_i rest
    exact Token.eq_leaf_of_leaf? h ▸ ⟨.text rest, rfl⟩
  · exact Token.eq_leaf_of_leaf? h ▸ LeafKind.exists_expression_ofEntry reader text text

/-- **A tree that was read comes to an expression**: a formula because it is
shaped, and an entry because it is a formula or a leaf. -/
theorem Token.IsRead.exists_expression (h : token.IsRead) : ∃ e, token.expression? = .ok e := by
  obtain ⟨reader, text, hformula | hentry⟩ := h
  · exact exists_expression_of_ofFormula? hformula
  · exact exists_expression_of_ofEntry? hentry

/-! ## Entries that are not read -/

theorem Token.leaf?_cons (kind : LeafKind) (c : Char) (text : List Char) :
    Token.leaf? kind (c :: text) = .ok (.leaf kind (c :: text)) :=
  rfl

/-- **An entry is not read** when there is nothing to read, or when it is a
formula and is not read as one. Any other text is at least a text. -/
theorem ofEntry?_eq_error_iff {error : SyntaxError} :
    Token.ofEntry? reader text = .error error ↔
      text = [] ∧ error = ⟨.emptyEntry, some 0⟩ ∨
        text.head? = some '=' ∧ Token.ofFormula? reader text = .error error := by
  constructor
  · intro h
    unfold Token.ofEntry? at h
    split at h
    · exact .inl ⟨rfl, (Except.error.inj h).symm⟩
    · exact .inr ⟨rfl, h⟩
    · rw [Token.leaf?_cons] at h
      cases h
    · obtain _ | ⟨c, rest⟩ := text
      · contradiction
      · rw [Token.leaf?_cons] at h
        cases h
  · rintro (⟨rfl, rfl⟩ | ⟨hhead, herror⟩)
    · rfl
    · obtain ⟨rest, rfl⟩ := List.head?_eq_some_iff.1 hhead
      exact herror

/-! ## Formulas without a value

The steps to a value are reading, reducing and evaluating. Evaluating never
fails, reducing does not fail on trees that were read, and reading fails just
when the text is wrong or too long. -/

variable {surroundings : Surroundings} {formula after : Formula} {error : FormulaError}

theorem lengthFault?_eq_some_iff :
    lengthFault? text = some error ↔
      maxLength < text.length ∧ error = .tooLong text.length maxLength := by
  unfold lengthFault?
  split
  · rename_i hlong
    exact ⟨fun h => ⟨hlong, (Option.some.inj h).symm⟩, fun h => h.2 ▸ rfl⟩
  · rename_i hshort
    exact ⟨nofun, fun h => absurd h.1 hshort⟩

/-- A tree is refused, where there was none, just when its text is too long for
a formula. -/
theorem setToken_some_eq_error_iff (hnone : formula.token = none) :
    formula.setToken (some token) = .error error ↔
      maxLength < token.text.length ∧ error = .tooLong token.text.length maxLength := by
  rw [← lengthFault?_eq_some_iff]
  unfold setToken
  rw [hnone, if_neg (by exact Bool.false_ne_true), Option.bind_some]
  cases lengthFault? token.text with
  | none => exact ⟨nofun, nofun⟩
  | some fault => exact ⟨fun h => congrArg some (Except.error.inj h),
      fun h => congrArg Except.error (Option.some.inj h)⟩

/-- **Reading a formula fails** when there is something to read, and either it
is wrong or the tree it gives is too long. The tree has the text of the formula,
so it is that text that is measured. -/
theorem parse_eq_error_iff :
    formula.parse reader = .error error ↔
      formula.token = none ∧ formula.text ≠ [] ∧
        ((∃ e, Token.ofEntry? reader formula.text = .error e ∧ error = .badSyntax e) ∨
          (∃ token, Token.ofEntry? reader formula.text = .ok token) ∧
            maxLength < formula.text.length ∧
            error = .tooLong formula.text.length maxLength) := by
  by_cases hdone : formula.token.isSome = true ∨ formula.text = []
  · -- a formula parsed already, or without a text, is left as it is
    have hparse : formula.parse reader = .ok formula := by
      unfold parse
      rw [if_pos (by rwa [Bool.or_eq_true, List.isEmpty_iff])]
    rw [hparse]
    refine ⟨nofun, fun ⟨hnone, htext, _⟩ => ?_⟩
    rw [hnone] at hdone
    exact absurd (hdone.resolve_left Bool.false_ne_true) htext
  · obtain ⟨hsome, htext⟩ := not_or.1 hdone
    have hnone := Option.not_isSome_iff_eq_none.1 hsome
    rw [and_iff_right hnone, and_iff_right htext]
    unfold parse
    rw [if_neg (by rwa [Bool.or_eq_true, List.isEmpty_iff])]
    cases hentry : Token.ofEntry? reader formula.text with
    | error e =>
      refine ⟨fun h => .inl ⟨e, rfl, (Except.error.inj h).symm⟩, ?_⟩
      rintro (⟨other, hother, rfl⟩ | ⟨⟨token, htoken⟩, -⟩)
      · rw [Except.error.inj hother]
      · cases htoken
    | ok token =>
      rw [setToken_some_eq_error_iff hnone, Token.text_of_ofEntry? hentry]
      refine ⟨fun h => .inr ⟨⟨token, rfl⟩, h⟩, ?_⟩
      rintro (⟨e, he, -⟩ | ⟨-, h⟩)
      · cases he
      · exact h

theorem exists_reduce (h : ∀ token, formula.token = some token → ∃ e, token.expression? = .ok e) :
    ∃ reduced, formula.reduce = .ok reduced := by
  unfold reduce
  split
  · rename_i token _ htoken
    obtain ⟨e, he⟩ := h token htoken
    rw [he]
    exact ⟨_, rfl⟩
  · exact ⟨_, rfl⟩

/-- Reading leaves a tree that was read, if it was so before. A tree that is
already there is kept. -/
theorem isRead_of_parse (hread : ∀ token, formula.token = some token → token.IsRead)
    (h : formula.parse reader = .ok after) : ∀ token, after.token = some token → token.IsRead := by
  rcases eq_of_parse h with ⟨-, rfl⟩ | ⟨token, htoken, rfl⟩
  · exact hread
  · intro other hother
    exact Option.some.inj hother ▸ ⟨reader, formula.text, .inr htoken⟩

/-- With a tree that was read, or none, only reading can fail: what follows it,
`Formula.reduce`, does not. -/
theorem evaluate_eq_error_iff_parse (hread : ∀ token, formula.token = some token → token.IsRead) :
    formula.evaluate reader surroundings = .error error ↔ formula.parse reader = .error error := by
  unfold evaluate
  cases hparse : formula.parse reader with
  | error e => rfl
  | ok parsed =>
    obtain ⟨reduced, hreduced⟩ := exists_reduce fun token htoken =>
      (isRead_of_parse hread hparse token htoken).exists_expression
    simp only [hreduced]
    exact ⟨nofun, nofun⟩

/-- **What was read comes to an expression**, an entry is not read only when it
is empty or a formula that is not read, and so a formula fails to have a value
exactly when it has a text and no tree yet, and the text is wrong or too long
for a formula. -/
theorem evaluate_eq_error_iff (reader : Reader) (surroundings : Surroundings) :
    (∀ text token,
      Token.ofFormula? reader text = .ok token ∨ Token.ofEntry? reader text = .ok token →
        ∃ e, token.expression? = .ok e) ∧
      (∀ text error, Token.ofEntry? reader text = .error error ↔
        text = [] ∧ error = ⟨.emptyEntry, some 0⟩ ∨
          text.head? = some '=' ∧ Token.ofFormula? reader text = .error error) ∧
      ∀ formula : Formula, (∀ token, formula.token = some token → token.IsRead) →
        ∀ error, formula.evaluate reader surroundings = .error error ↔
          formula.token = none ∧ formula.text ≠ [] ∧
            ((∃ e, Token.ofEntry? reader formula.text = .error e ∧ error = .badSyntax e) ∨
              (∃ token, Token.ofEntry? reader formula.text = .ok token) ∧
                maxLength < formula.text.length ∧
                error = .tooLong formula.text.length maxLength) := by
  refine ⟨fun text token h => ?_, fun text error => ofEntry?_eq_error_iff,
    fun formula hread error => ?_⟩
  · exact Token.IsRead.exists_expression ⟨reader, text, h⟩
  · rw [evaluate_eq_error_iff_parse hread]
    exact parse_eq_error_iff

/-- A range that was read has an expression, and a formula with its tree has a
value. -/
theorem evaluate_oneCell :
    let range : Expression := .reference (.range ⟨firstCell, firstCell⟩)
    let formula : Formula := ⟨none, some (Expression.Spellable.formulaTree range), none, none⟩
    (∃ e, (Expression.Spellable.formulaTree range).expression? = .ok e) ∧
      ∀ error, formula.evaluate .standard .standard ≠ .error error := by
  intro range formula
  obtain ⟨hexpression, -, hevaluate⟩ := evaluate_eq_error_iff .standard .standard
  refine ⟨hexpression _ _ (.inl ofFormula?_oneCell), fun error herror => ?_⟩
  have hread : ∀ token, formula.token = some token → token.IsRead := by
    intro token htoken
    exact Option.some.inj htoken ▸ ⟨_, _, .inl ofFormula?_oneCell⟩
  obtain ⟨hnone, -⟩ := (hevaluate formula hread error).1 herror
  cases hnone

end Worksheet.Formula
