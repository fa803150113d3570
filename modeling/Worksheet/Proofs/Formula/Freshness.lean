import Worksheet.Proofs.Formula.Covering
import Worksheet.Proofs.Formula.Operations

/-!
# What is derived from a text belongs to it

A formula keeps its tree, its expression and its value for as long as its text
stays, and finds each of them only when it is missing. Nothing of this may be
left over from an older text. With one reader and in one surrounding, what is
held is always what would be found anew (`Formula.Fresh`): the tree is that of
the text, the expression that of the tree, and the value that of the expression.

Behind this stands that reading does not touch the text (`text_parse`). A
formula hands its text over to the tree it gets, and that tree has the very text
it was read from (`Token.text_of_ofEntry?`).
-/

namespace Worksheet.Formula

/-! ## The text stays

The text is held once: stored, or by the tree that was read from it. Reading
moves it from the one place to the other, and this is why `text` is a function
of both. -/

theorem Token.eq_leaf_of_leaf? {kind : LeafKind} {text : List Char} {token : Token}
    (h : Token.leaf? kind text = .ok token) : token = .leaf kind text := by
  unfold Token.leaf? at h
  split at h
  · cases h
  · exact (Except.ok.inj h).symm

/-- **The tree of an entry has the text of the entry**, be it a formula, a value
or a text behind an apostrophe. -/
theorem Token.text_of_ofEntry? {reader : Reader} {text : List Char} {token : Token}
    (h : Token.ofEntry? reader text = .ok token) : token.text = text := by
  unfold Token.ofEntry? at h
  split at h
  · cases h
  · obtain ⟨input, hlexemes, hshaped, -, hleaves⟩ := ofFormula?_eq_ok_iff.1 h
    rw [text_eq_joinedText_leaves token hshaped.joined, ← hleaves, joinedText_map_token]
    exact (covers_of_lexemes hlexemes).joined_eq
  · rw [Token.eq_leaf_of_leaf? h, Token.text]
  · rw [Token.eq_leaf_of_leaf? h, Token.text]

variable {reader : Reader} {surroundings : Surroundings} {formula after : Formula}

theorem stored_eq_of_token_eq_none (hnone : formula.token = none) (htext : formula.text ≠ []) :
    formula.stored = some formula.text := by
  unfold text at htext ⊢
  rw [hnone] at htext ⊢
  cases hstored : formula.stored with
  | some text => rfl
  | none =>
    rw [hstored] at htext
    exact absurd rfl htext

/-- **Reading a text that is not read yet** leaves nothing but its tree. The
text is given up, as the tree has it. -/
theorem eq_of_parse (hparse : formula.parse reader = .ok after) :
    (formula.token.isSome = true ∨ formula.text = []) ∧ after = formula ∨
      ∃ token, Token.ofEntry? reader formula.text = .ok token ∧
        after = ⟨none, some token, none, none⟩ := by
  rcases parse_eq_ok hparse with hdone | ⟨hnone, htext, token, htoken, hset⟩
  · exact .inl hdone
  · have hkept : keptText formula.stored (some token) = none := by
      rw [stored_eq_of_token_eq_none hnone htext, keptText, Option.map_some,
        Token.text_of_ofEntry? htoken]
      exact if_pos (beq_self_eq_true (some formula.text))
    refine .inr ⟨token, htoken, ?_⟩
    rw [(setToken_some_eq_ok hnone hset).2, hkept]

/-- **Reading keeps the text.** -/
theorem text_parse (h : formula.parse reader = .ok after) : after.text = formula.text := by
  rcases eq_of_parse h with ⟨-, rfl⟩ | ⟨token, htoken, rfl⟩
  · rfl
  · exact Token.text_of_ofEntry? htoken

/-- **Evaluation keeps the text**: of its three steps, `parse`, `reduce` and
`setValue`, only the first touches text or tree. -/
theorem text_evaluate (h : formula.evaluate reader surroundings = .ok after) :
    after.text = formula.text := by
  obtain ⟨parsed, reduced, hparse, hreduce, rfl⟩ := evaluate_eq_ok h
  rw [(sameText_setValue reduced _).text_eq, (sameText_reduce hreduce).text_eq, text_parse hparse]

/-! ## Fresh formulas

Each field of `Fresh` says of one thing that is held what it would be found
from: the tree from the text, the expression from the tree, the value from the
expression. The operations are gone through one by one. -/

/-- **Nothing of a formula is stale**: with a reader and in some surroundings,
what it holds is what would be found for its text. A formula that holds nothing
is fresh. -/
structure Fresh (reader : Reader) (surroundings : Surroundings) (formula : Formula) : Prop where
  /-- The tree is that of the text. -/
  token : ∀ token, formula.token = some token → Token.ofEntry? reader formula.text = .ok token
  /-- The expression is that of the tree. -/
  expression : ∀ e, formula.expression = some e →
    ∃ token, formula.token = some token ∧ token.expression? = .ok e
  /-- The value is that of the expression. -/
  value : ∀ value, formula.value = some value → formula.text ≠ [] →
    ∃ e, formula.expression = some e ∧ value = e.evaluate surroundings
  /-- Without a text the value is nothing. -/
  value_of_nil : ∀ value, formula.value = some value → formula.text = [] → value = .empty

namespace Fresh

theorem of_value_eq_none
    (htoken : ∀ token, formula.token = some token → Token.ofEntry? reader formula.text = .ok token)
    (hexpression : ∀ e, formula.expression = some e →
      ∃ token, formula.token = some token ∧ token.expression? = .ok e)
    (hvalue : formula.value = none) : Fresh reader surroundings formula := by
  refine ⟨htoken, hexpression, ?_, ?_⟩
  all_goals
    intro value hsome
    rw [hvalue] at hsome
    cases hsome

theorem ofStored (stored : Option (List Char)) :
    Fresh reader surroundings ⟨stored, none, none, none⟩ :=
  of_value_eq_none (fun _ h => absurd h (Option.some_ne_none _).symm)
    (fun _ h => absurd h (Option.some_ne_none _).symm) rfl

theorem expression_eq_none (h : Fresh reader surroundings formula) (hnil : formula.text = []) :
    formula.expression = none := by
  cases hexpression : formula.expression with
  | none => rfl
  | some e =>
    obtain ⟨token, htoken, -⟩ := h.expression e hexpression
    have hread := h.token token htoken
    rw [hnil] at hread
    cases hread

theorem setText {text : List Char} (h : Fresh reader surroundings formula)
    (hset : formula.setText text = .ok after) : Fresh reader surroundings after := by
  obtain ⟨-, rfl⟩ := setText_eq_ok_iff.1 hset
  split
  · exact h
  · exact ofStored _

theorem clear (h : Fresh reader surroundings formula) :
    Fresh reader surroundings formula.clear :=
  of_value_eq_none h.token (fun _ he => absurd he (Option.some_ne_none _).symm) rfl

theorem parse (h : Fresh reader surroundings formula)
    (hparse : formula.parse reader = .ok after) : Fresh reader surroundings after := by
  rcases eq_of_parse hparse with ⟨-, rfl⟩ | ⟨token, htoken, rfl⟩
  · exact h
  · refine of_value_eq_none ?_ (fun _ he => absurd he (Option.some_ne_none _).symm) rfl
    intro other hother
    obtain rfl := Option.some.inj hother
    rwa [← text_parse hparse] at htoken

theorem reduce (h : Fresh reader surroundings formula)
    (hreduce : formula.reduce = .ok after) : Fresh reader surroundings after := by
  rcases reduce_eq_ok hreduce with ⟨-, rfl⟩ | ⟨-, token, e, htoken, he, rfl⟩
  · exact h
  · refine of_value_eq_none h.token (fun other hother => ⟨token, htoken, ?_⟩) rfl
    rw [← Option.some.inj hother]
    exact he

/-- A value that is set to that of the expression. There is an expression, or no
text for it to come from. -/
theorem setValue_result (h : Fresh reader surroundings formula)
    (hdone : formula.expression.isSome = true ∨ formula.text = []) :
    Fresh reader surroundings (formula.setValue (some (formula.result surroundings))) := by
  unfold setValue
  split
  -- the value that is held equals the new one: it stays, and is as fresh as it was
  · exact h
  · refine ⟨h.token, h.expression, fun value hvalue htext => ?_, fun value hvalue hnil => ?_⟩
    all_goals obtain rfl := Option.some.inj hvalue
    · obtain ⟨e, he⟩ := Option.isSome_iff_exists.1 (hdone.resolve_right htext)
      exact ⟨e, he, by rw [result, he]⟩
    · rw [result, h.expression_eq_none hnil]

theorem evaluate (h : Fresh reader surroundings formula)
    (hevaluate : formula.evaluate reader surroundings = .ok after) :
    Fresh reader surroundings after := by
  obtain ⟨parsed, reduced, hparse, hreduce, rfl⟩ := evaluate_eq_ok hevaluate
  refine ((h.parse hparse).reduce hreduce).setValue_result ?_
  -- a text has been read into a tree, and a tree has been reduced to an expression
  rcases reduce_eq_ok hreduce with ⟨hexpression | htoken, rfl⟩ | ⟨-, token, e, -, -, rfl⟩
  · exact .inl hexpression
  · refine .inr ((isSome_token_of_parse hparse).resolve_left ?_)
    rw [htoken]
    exact Bool.false_ne_true
  · exact .inl rfl

end Fresh

/-! ## Editing -/

/-- What is done to a formula with one reader and in some surroundings. Trees,
expressions and values that are set from outside are no edits, since they need
have nothing to do with the text. -/
inductive Edit where
  /-- A text is typed. -/
  | setText (text : List Char)
  /-- The text is read. -/
  | parse
  /-- The value is found. -/
  | evaluate
  /-- Expression and value are dropped. -/
  | clear

def Edit.operation (reader : Reader) (surroundings : Surroundings) : Edit → FormulaOperation
  | setText text => .setText text
  | parse => .parse reader
  | evaluate => .evaluate reader surroundings
  | clear => .clear

/-- **No edit leaves anything stale**, by one lemma for each `Edit`. -/
theorem Fresh.step (h : Fresh reader surroundings formula) (edit : Edit) :
    Fresh reader surroundings (formula.step (edit.operation reader surroundings)) := by
  refine step_of_perform? h fun after hafter => ?_
  cases edit with
  | setText text => exact h.setText hafter
  | parse => exact h.parse hafter
  | evaluate => exact h.evaluate hafter
  | clear => exact Except.ok.inj hafter ▸ h.clear

/-- No edits one after another leave anything stale, by induction on the list. -/
theorem Fresh.run (h : Fresh reader surroundings formula) (edits : List Edit) :
    Fresh reader surroundings (formula.run (edits.map (Edit.operation reader surroundings))) := by
  induction edits generalizing formula with
  | nil => exact h
  | cons edit edits ih => exact ih (h.step edit)

/-- **A formula that is edited is fresh**, and neither reading nor evaluating it
changes its text. -/
theorem run_fresh (reader : Reader) (surroundings : Surroundings) (edits : List Edit) :
    let formula := empty.run (edits.map (Edit.operation reader surroundings))
    Fresh reader surroundings formula ∧
      (formula.step (.parse reader)).text = formula.text ∧
      (formula.step (.evaluate reader surroundings)).text = formula.text := by
  refine ⟨(Fresh.ofStored none).run edits, ?_, ?_⟩
  · exact step_of_perform? (p := fun after => after.text = _) rfl fun _ => text_parse
  · exact step_of_perform? (p := fun after => after.text = _) rfl fun _ => text_evaluate

/-- A value that is found again after another text was typed over the first. -/
example : empty.run ([.setText ['\'', 'a'], .evaluate, .setText ['\'', 'b'], .evaluate].map
    (Edit.operation .standard .standard))
      = ⟨none, some (.leaf (.text ['b']) ['\'', 'b']), some (.text ['b']), some (.text ['b'])⟩ :=
  rfl

end Worksheet.Formula
