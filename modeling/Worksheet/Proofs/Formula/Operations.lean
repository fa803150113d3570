import Worksheet.Formula.Basic

/-!
# What is done to a formula

The text of a formula can live in two places: it is stored, or the tree gives
it. Each operation sees to it that there is never a doubt which one counts. A
stored text is not empty, and a tree that would give the same text is kept
without it; and neither is longer than a formula may be (`Formula.Settled`).

One lemma for each operation says what a success leaves (`setText_eq_ok_iff`,
`setToken_eq_ok`, `parse_eq_ok`, `reduce_eq_ok`, `evaluate_eq_ok`). From these
the step lemma `Settled.step` follows, and by induction on the operations every
formula that can be reached is settled, whatever is done to it (`run_settled`).
-/

namespace Worksheet

open Formula in
/-- What can be done to a formula. -/
inductive FormulaOperation where
  /-- It gets a text. -/
  | setText (text : List Char)
  /-- It gets a tree, or loses it. -/
  | setToken (token : Option Token)
  /-- It gets an expression, or loses it. -/
  | setExpression (expression : Option Expression)
  /-- It gets a value, or loses it. -/
  | setValue (value : Option Value)
  /-- It loses expression and value. -/
  | clear
  /-- Its text is read. -/
  | parse (reader : Reader)
  /-- Its value is found. -/
  | evaluate (reader : Reader) (surroundings : Surroundings)

namespace Formula

def perform? (formula : Formula) : FormulaOperation → Except FormulaError Formula
  | .setText text => formula.setText text
  | .setToken token => formula.setToken token
  | .setExpression expression => .ok (formula.setExpression expression)
  | .setValue value => .ok (formula.setValue value)
  | .clear => .ok formula.clear
  | .parse reader => formula.parse reader
  | .evaluate reader surroundings => formula.evaluate reader surroundings

/-- The formula after an operation. One that fails leaves it as it was. -/
def step (formula : Formula) (operation : FormulaOperation) : Formula :=
  match formula.perform? operation with
  | .ok after => after
  | .error _ => formula

/-- The formula after operations one after another. One that fails leaves it as
it is. -/
def run (formula : Formula) (operations : List FormulaOperation) : Formula :=
  operations.foldl step formula

/-- What every success keeps is kept by a step. -/
theorem step_of_perform? {formula : Formula} {operation : FormulaOperation}
    {p : Formula → Prop} (hformula : p formula)
    (h : ∀ after, formula.perform? operation = .ok after → p after) :
    p (formula.step operation) := by
  unfold step
  split
  · exact h _ ‹_›
  · exact hformula

/-! ## What a success leaves

Each operation is characterised by what it can answer and leave. Later proofs
go by these equations, and none of them opens an operation again. -/

variable {formula after : Formula}

theorem lengthFault?_eq_none_iff {text : List Char} :
    lengthFault? text = none ↔ text.length ≤ maxLength := by
  unfold lengthFault?
  split
  · rename_i hlong
    simpa using hlong
  · rename_i hshort
    simpa using Nat.le_of_not_lt hshort

/-- **A text can be set when it is short enough.** The formula is left alone
when it has this text already, and is otherwise nothing but this text. -/
theorem setText_eq_ok_iff {text : List Char} :
    formula.setText text = .ok after ↔
      text.length ≤ maxLength ∧
        after = if formula.text = text then formula
          else ⟨if text.isEmpty then none else some text, none, none, none⟩ := by
  rw [← lengthFault?_eq_none_iff]
  unfold setText
  cases lengthFault? text with
  | some fault => simp
  | none =>
    simp only [true_and]
    split <;> exact ⟨fun h => (Except.ok.inj h).symm, fun h => h ▸ rfl⟩

theorem text_setText {text : List Char} (h : formula.setText text = .ok after) :
    after.text = text := by
  obtain ⟨-, rfl⟩ := setText_eq_ok_iff.1 h
  split
  · assumption
  · cases text <;> rfl

/-- A formula that has a text already is left alone. -/
theorem setText_text (h : formula.text.length ≤ maxLength) :
    formula.setText formula.text = .ok formula :=
  setText_eq_ok_iff.2 ⟨h, (if_pos rfl).symm⟩

/-- **A tree that is set** is there already, or is short enough and replaces all
that was derived; the stored text is dropped if the tree gives it (`keptText`). -/
theorem setToken_eq_ok {token : Option Token} (h : formula.setToken token = .ok after) :
    after = formula ∨
      (∀ node, token = some node → node.text.length ≤ maxLength) ∧
        after = ⟨keptText formula.stored token, token, none, none⟩ := by
  unfold setToken at h
  split at h
  · exact .inl (Except.ok.inj h).symm
  · split at h
    · cases h
    · rename_i hfault
      refine .inr ⟨?_, (Except.ok.inj h).symm⟩
      rintro node rfl
      exact lengthFault?_eq_none_iff.1 hfault

theorem setToken_some_eq_ok {token : Token} (hnone : formula.token = none)
    (h : formula.setToken (some token) = .ok after) :
    token.text.length ≤ maxLength ∧
      after = ⟨keptText formula.stored (some token), some token, none, none⟩ := by
  rcases setToken_eq_ok h with rfl | ⟨hlength, rfl⟩
  · unfold setToken at h
    rw [hnone, if_neg (by exact Bool.false_ne_true)] at h
    split at h
    · cases h
    · have htoken := congrArg Formula.token (Except.ok.inj h)
      rw [hnone] at htoken
      cases htoken
  · exact ⟨hlength token rfl, rfl⟩

/-- **A formula that is read** has a tree already or no text, or gets the tree
of its text. -/
theorem parse_eq_ok {reader : Reader} (h : formula.parse reader = .ok after) :
    (formula.token.isSome = true ∨ formula.text = []) ∧ after = formula ∨
      formula.token = none ∧ formula.text ≠ [] ∧
        ∃ token, Token.ofEntry? reader formula.text = .ok token ∧
          formula.setToken (some token) = .ok after := by
  unfold parse at h
  split at h
  · rename_i hdone
    rw [Bool.or_eq_true, List.isEmpty_iff] at hdone
    exact .inl ⟨hdone, (Except.ok.inj h).symm⟩
  · rename_i hopen
    rw [Bool.or_eq_true, List.isEmpty_iff, not_or, Bool.not_eq_true, Option.isSome_eq_false_iff,
      Option.isNone_iff_eq_none] at hopen
    split at h
    · cases h
    · exact .inr ⟨hopen.1, hopen.2, _, ‹_›, h⟩

theorem isSome_token_of_parse {reader : Reader} (h : formula.parse reader = .ok after) :
    after.token.isSome = true ∨ after.text = [] := by
  rcases parse_eq_ok h with ⟨hdone, rfl⟩ | ⟨hnone, -, token, -, hset⟩
  · exact hdone
  · rw [(setToken_some_eq_ok hnone hset).2]
    exact .inl rfl

/-- **What was read once is not read again**, by no reader. -/
theorem parse_of_parse {reader : Reader} (h : formula.parse reader = .ok after)
    (again : Reader) : after.parse again = .ok after := by
  unfold parse
  refine if_pos ?_
  rw [Bool.or_eq_true, List.isEmpty_iff]
  exact isSome_token_of_parse h

/-- **A formula that is reduced** has an expression already or no tree, or gets
the expression of its tree. -/
theorem reduce_eq_ok (h : formula.reduce = .ok after) :
    (formula.expression.isSome = true ∨ formula.token = none) ∧ after = formula ∨
      formula.expression = none ∧ ∃ token e, formula.token = some token ∧
        token.expression? = .ok e ∧
        after = { formula with expression := some e, value := none } := by
  unfold reduce at h
  split at h
  · rename_i token hexpression htoken
    split at h
    · cases h
    · rename_i e he
      refine .inr ⟨hexpression, token, e, htoken, he, ?_⟩
      rw [← Except.ok.inj h, setExpression, hexpression]
      exact if_neg Bool.false_ne_true
  · rename_i hdone
    refine .inl ⟨?_, (Except.ok.inj h).symm⟩
    cases hexpression : formula.expression with
    | some e => exact .inl rfl
    | none =>
      cases htoken : formula.token with
      | none => exact .inr rfl
      | some token => exact (hdone token hexpression htoken).elim

/-- **A value is found** by reading, reducing and evaluating. -/
theorem evaluate_eq_ok {reader : Reader} {surroundings : Surroundings}
    (h : formula.evaluate reader surroundings = .ok after) :
    ∃ parsed reduced, formula.parse reader = .ok parsed ∧ parsed.reduce = .ok reduced ∧
      after = reduced.setValue (some (reduced.result surroundings)) := by
  unfold evaluate at h
  split at h
  · cases h
  · split at h
    · cases h
    · exact ⟨_, _, ‹_›, ‹_›, (Except.ok.inj h).symm⟩

/-! ## What is left alone

Expressions and values are no part of the text, so the operations on them are
done with by `SameText`. -/

/-- Two formulas have their text in the same places. Operations on expressions
and values leave it so, and whatever is said of texts is then kept by them. -/
structure SameText (a b : Formula) : Prop where
  stored_eq : a.stored = b.stored
  token_eq : a.token = b.token

theorem sameText_setExpression (formula : Formula) (expression : Option Expression) :
    SameText (formula.setExpression expression) formula := by
  unfold setExpression
  split <;> exact ⟨rfl, rfl⟩

theorem sameText_setValue (formula : Formula) (value : Option Value) :
    SameText (formula.setValue value) formula := by
  unfold setValue
  split <;> exact ⟨rfl, rfl⟩

theorem sameText_reduce (h : formula.reduce = .ok after) : SameText after formula := by
  rcases reduce_eq_ok h with ⟨-, rfl⟩ | ⟨-, token, e, -, -, rfl⟩ <;> exact ⟨rfl, rfl⟩

theorem SameText.text_eq {a b : Formula} (h : SameText a b) : a.text = b.text := by
  rw [text, text, h.stored_eq, h.token_eq]

/-! ## Settled texts

`Settled` is the invariant of the operations: no stored text is empty or one
that the tree gives, and no text is longer than `maxLength`. There is one lemma
for each operation, then the step, then the run. -/

/-- **The text of a formula is settled**: it is clear where it is, and it is not
too long. -/
structure Settled (formula : Formula) : Prop where
  /-- A stored text is not empty. -/
  stored_ne_nil : ∀ text, formula.stored = some text → text ≠ []
  /-- A stored text is not too long. -/
  stored_length_le : ∀ text, formula.stored = some text → text.length ≤ maxLength
  /-- The text of a tree is not too long. -/
  token_length_le : ∀ token, formula.token = some token → token.text.length ≤ maxLength
  /-- A tree does not give the text that is stored. -/
  token_text_ne : ∀ token text, formula.token = some token → formula.stored = some text →
    token.text ≠ text

namespace Settled

theorem empty : Settled empty :=
  ⟨nofun, nofun, nofun, nofun⟩

theorem text_length_le (h : Settled formula) : formula.text.length ≤ maxLength := by
  unfold text
  split
  · exact h.stored_length_le _ ‹_›
  · exact h.token_length_le _ ‹_›
  · exact Nat.zero_le _

theorem of_sameText (h : Settled formula) (hsame : SameText after formula) :
    Settled after := by
  obtain ⟨hstored, htoken⟩ := hsame
  refine ⟨?_, ?_, ?_, ?_⟩
  · exact hstored ▸ h.stored_ne_nil
  · exact hstored ▸ h.stored_length_le
  · exact htoken ▸ h.token_length_le
  · exact hstored ▸ htoken ▸ h.token_text_ne

theorem setText {text : List Char} (h : Settled formula)
    (hset : formula.setText text = .ok after) : Settled after := by
  obtain ⟨hlength, rfl⟩ := setText_eq_ok_iff.1 hset
  split
  · exact h
  · cases text with
    | nil => exact empty
    | cons c text =>
      refine ⟨fun stored hstored => ?_, fun stored hstored => ?_, nofun, nofun⟩
      all_goals obtain rfl : c :: text = stored := Option.some.inj hstored
      · exact List.cons_ne_nil c text
      · exact hlength

/-- A formula with another tree: what is stored beside it was stored before, and
is not the text of the tree. -/
theorem setToken {token : Option Token} (h : Settled formula)
    (hset : formula.setToken token = .ok after) : Settled after := by
  rcases setToken_eq_ok hset with rfl | ⟨hlength, rfl⟩
  · exact h
  · have hkept : ∀ text, keptText formula.stored token = some text →
        formula.stored = some text ∧ ∀ node, token = some node → node.text ≠ text := by
      intro text htext
      unfold keptText at htext
      split at htext
      · cases htext
      · rename_i hdiffers
        refine ⟨htext, fun node hnode heq => hdiffers ?_⟩
        rw [htext, hnode, Option.map_some, heq]
        exact beq_self_eq_true (some text)
    exact ⟨fun text htext => h.stored_ne_nil text (hkept text htext).1,
      fun text htext => h.stored_length_le text (hkept text htext).1, hlength,
      fun node text hnode htext => (hkept text htext).2 node hnode⟩

theorem parse {reader : Reader} (h : Settled formula)
    (hparse : formula.parse reader = .ok after) : Settled after := by
  rcases parse_eq_ok hparse with ⟨-, rfl⟩ | ⟨-, -, token, -, hset⟩
  · exact h
  · exact h.setToken hset

theorem evaluate {reader : Reader} {surroundings : Surroundings} (h : Settled formula)
    (hevaluate : formula.evaluate reader surroundings = .ok after) : Settled after := by
  obtain ⟨parsed, reduced, hparse, hreduce, rfl⟩ := evaluate_eq_ok hevaluate
  have hreduced : Settled reduced := (h.parse hparse).of_sameText (sameText_reduce hreduce)
  exact hreduced.of_sameText (sameText_setValue reduced _)

/-- **Every operation settles the text again**, by cases on the operation. -/
theorem step (h : Settled formula) (operation : FormulaOperation) :
    Settled (formula.step operation) := by
  refine step_of_perform? h fun after hafter => ?_
  cases operation with
  | setText text => exact h.setText hafter
  | setToken token => exact h.setToken hafter
  | setExpression expression =>
    exact Except.ok.inj hafter ▸ h.of_sameText (sameText_setExpression formula expression)
  | setValue value => exact Except.ok.inj hafter ▸ h.of_sameText (sameText_setValue formula value)
  | clear => exact Except.ok.inj hafter ▸ h.of_sameText ⟨rfl, rfl⟩
  | parse reader => exact h.parse hafter
  | evaluate reader surroundings => exact h.evaluate hafter

/-- **A settled formula stays so** through any operations, by induction on the
list. -/
theorem run (h : Settled formula) (operations : List FormulaOperation) :
    Settled (formula.run operations) := by
  induction operations generalizing formula with
  | nil => exact h
  | cons operation operations ih => exact ih (h.step operation)

end Settled

/-- **Whatever is done to a formula, its text is settled.** A text that is not
too long can then be set, is the text afterwards, and can be set again with no
effect; and what was read once is not read again. -/
theorem run_settled (operations : List FormulaOperation) :
    let formula := empty.run operations
    Settled formula ∧ formula.text.length ≤ maxLength ∧
      (∀ text, text.length ≤ maxLength ↔ ∃ after, formula.setText text = .ok after) ∧
      (∀ text after, formula.setText text = .ok after →
        after.text = text ∧ after.setText text = .ok after) ∧
      ∀ reader after, formula.parse reader = .ok after →
        ∀ again, after.parse again = .ok after := by
  have hsettled := Settled.empty.run operations
  refine ⟨hsettled, hsettled.text_length_le, fun text => ?_, fun text after hset => ?_,
    fun reader after => parse_of_parse⟩
  · exact ⟨fun hlength => ⟨_, setText_eq_ok_iff.2 ⟨hlength, rfl⟩⟩,
      fun ⟨_, hset⟩ => (setText_eq_ok_iff.1 hset).1⟩
  · have htext := text_setText hset
    refine ⟨htext, ?_⟩
    have hagain := setText_text (hsettled.setText hset).text_length_le
    rwa [htext] at hagain

/-- A tree beside another text, the text set that the tree gives, and a tree
taken away. -/
theorem settled_moved :
    let entry := Token.leaf (.text ['a']) ['\'', 'a']
    let formula := empty.run [.setText ['b'], .setToken (some entry), .setText ['\'', 'a'],
      .parse .standard, .setToken none]
    let after : Formula := ⟨some ['\'', 'a'], none, none, none⟩
    Settled formula ∧ formula.setText ['\'', 'a'] = .ok after ∧ after.text = ['\'', 'a'] ∧
      after.setText ['\'', 'a'] = .ok after := by
  obtain ⟨hsettled, -, -, hset, -⟩ := run_settled [.setText ['b'],
    .setToken (some (.leaf (.text ['a']) ['\'', 'a'])), .setText ['\'', 'a'], .parse .standard,
    .setToken none]
  exact ⟨hsettled, rfl, hset _ _ rfl⟩

end Formula

end Worksheet
