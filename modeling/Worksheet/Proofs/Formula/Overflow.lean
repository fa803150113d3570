import Worksheet.Proofs.Convert.Numbers
import Worksheet.Proofs.Formula.Evaluation
import Worksheet.Proofs.Formula.Freshness
import Worksheet.Proofs.Formula.Rereading

/-!
# Overflow

A result that is too large is an error. Every operator sees to it that what it
returns is neither an infinity nor NaN, whatever its operands are
(`Operator.isFinite_apply`). Where references and calls give finite numbers
only, what is left are literals, and of these only one by itself is passed on as
it is (`Expression.isFinite_evaluate_iff`).

A literal is never NaN, in a formula (`Expression.OfFormula.isNaN`) or as an
entry (`Expression.OfEntry.isNaN`). But there can be too many digits, or the
exponent can be too large, and nothing looks at the number that is read then:
`=1E400` and `1E400` come to an infinite number, where `=1E400+0` is an error.
So the values that are not finite are those of infinite literals by themselves
(`not_isFinite_iff`).
-/

namespace Worksheet

/-- **A value with no infinity or NaN in it.** Values of other kinds than
`Value.number` have none. -/
def Value.IsFinite (value : Value) : Prop :=
  ∀ number, value = .number number → number.isFinite = true

namespace Formula

/-- **Surroundings that give finite numbers only**, as what references stand for
and what functions return. -/
structure Surroundings.IsFinite (surroundings : Surroundings) : Prop where
  reference : ∀ selection, (surroundings.reference selection).IsFinite
  call : ∀ name arguments, (surroundings.call name arguments).IsFinite

theorem Surroundings.isFinite_standard : Surroundings.standard.IsFinite :=
  ⟨fun _ => nofun, fun _ _ => nofun⟩

/-! ## Results are finite

Every number that an operator computes goes through `finiteValue`, and this is
all that is used of arithmetic. -/

/-- What `finiteValue` makes of a result is finite: it puts an error in the
place of an infinity or NaN, and it is what every operation on numbers ends
with. -/
theorem isFinite_finiteValue (result : Float) : (finiteValue result).IsFinite := by
  unfold finiteValue
  split
  · rename_i hfinite
    intro number hnumber
    rwa [← Value.number.inj hnumber]
  · exact nofun

theorem isFinite_applyToNumber (surroundings : Surroundings) (f : Float → Float)
    (operand : Value) : (applyToNumber surroundings f operand).IsFinite := by
  rw [applyToNumber, askApplied, Asking.value_run_bind]
  split
  · exact nofun
  · exact isFinite_finiteValue _

namespace Operator

theorem isFinite_arithmetic? {operator : Operator} {calculate : Float → Float → Value}
    (h : operator.arithmetic? = some calculate) (a b : Float) : (calculate a b).IsFinite := by
  cases operator with
  | addition | subtraction | multiplication =>
    obtain rfl := Option.some.inj h
    exact isFinite_finiteValue _
  | division | power =>
    obtain rfl := Option.some.inj h
    dsimp only
    split
    · exact nofun
    · exact isFinite_finiteValue _
  | _ => cases h

/-- **No operator returns an infinity or NaN.** Comparisons return booleans, the
operations on numbers go through `finiteValue`, and an operand that is passed on
is an error. -/
theorem isFinite_apply (operator : Operator) (surroundings : Surroundings) (left right : Value) :
    (operator.apply surroundings left right).IsFinite := by
  have herror : ∀ {value : Value}, value.isError = true → value.IsFinite := by
    rintro _ h _ rfl
    cases h
  unfold apply asks
  split
  · exact herror ‹_›
  · split
    · exact herror ‹_›
    · split
      · exact nofun
      · rw [Asking.value_run_bind, Asking.value_run_bind]
        split
        · exact nofun
        · split
          · exact nofun
          · exact isFinite_arithmetic? ‹_› _ _

end Operator

namespace Expression

variable {surroundings : Surroundings} {text : List Char} {e : Expression}

/-- **Only a literal by itself comes to something else** than a finite number.
Behind a reference or a call there is what the surroundings give, and at every
other node `Operator.apply` or `applyToNumber` has the last word. -/
theorem isFinite_evaluate_iff (h : surroundings.IsFinite) :
    (e.evaluate surroundings).IsFinite ↔ ∀ number, e = .number number → number.isFinite = true := by
  constructor
  · rintro hvalue number rfl
    exact hvalue number rfl
  · intro hliteral
    cases e with
    | number number =>
      intro _ hnumber
      rw [← Value.number.inj hnumber]
      exact hliteral number rfl
    | text | boolean | date | dateTime | time | error => exact nofun
    | reference selection => exact h.reference selection
    | negative operand =>
      rw [evaluate_negative]
      exact isFinite_applyToNumber _ _ _
    | percentage operand =>
      rw [evaluate_percentage]
      exact isFinite_applyToNumber _ _ _
    | binary operator left right =>
      rw [evaluate_binary]
      exact operator.isFinite_apply _ _ _
    | call name arguments =>
      rw [evaluate_call]
      exact h.call name _

/-! ## Literals

What is left is a literal by itself. It is a number of some size, so it may be
infinite and is never NaN, whether it is read in a formula or is an entry. -/

/-- What a text comes to as a formula, under the standard reader: the expression
of its tree. -/
def OfFormula (text : List Char) (e : Expression) : Prop :=
  ∃ token, Token.ofFormula? .standard text = .ok token ∧ token.expression? = .ok e

/-- What a text comes to as an entry, under the standard reader. An entry need
not have an equals sign in front. -/
def OfEntry (text : List Char) (e : Expression) : Prop :=
  ∃ token, Token.ofEntry? .standard text = .ok token ∧ token.expression? = .ok e

theorem OfFormula.ofEntry {rest : List Char} (h : OfFormula text e) (htext : text = '=' :: rest) :
    OfEntry text e := by
  subst htext
  exact h

theorem OfEntry.unique {e' : Expression} (h : OfEntry text e) (h' : OfEntry text e') : e = e' := by
  obtain ⟨token, htoken, he⟩ := h
  obtain ⟨token', htoken', he'⟩ := h'
  obtain rfl := Except.ok.inj (htoken.symm.trans htoken')
  exact Except.ok.inj (he.symm.trans he')

/-- **A number in a formula is not NaN.** It is a literal, and a literal is read
as a number of some size. -/
theorem OfFormula.isNaN {number : Float} (h : OfFormula text (.number number)) :
    number.isNaN = false := by
  obtain ⟨token, htoken, he⟩ := h
  obtain ⟨e, he', hreadable⟩ := exists_readable_of_ofFormula? htoken
  obtain rfl := Except.ok.inj (he.symm.trans he')
  cases hreadable with
  | number hsize => exact hsize.isNaN_eq_false

/-- The standard reader reads the numbers among the entries by the sections of
the general format, `Read.generalReader`. -/
theorem numberReader_standard : Reader.standard.converter.numberReader = Read.generalReader := by
  obtain ⟨converter, hconverter, h⟩ := exists_of_bind_eq_ok Reader.ofPatterns?_standard
  obtain ⟨literals, -, h⟩ := exists_of_bind_eq_ok h
  rw [← Except.ok.inj h]
  exact Converter.numberReader_of_standard (Converter.compiled_of_ofPatterns? hconverter)

theorem ne_number_of_momentReader {reader : Read.MomentReader} {locale : Locale} {value : Value}
    (h : reader.read? locale text = some value) (number : Float) : value ≠ .number number := by
  rintro rfl
  obtain ⟨components, -, hread⟩ := List.exists_of_findSome?_eq_some h
  unfold Read.MomentReader.readBy? at hread
  split at hread
  · unfold Read.MomentKind.value? at hread
    split at hread
    · obtain ⟨_, -, heq⟩ := Option.map_eq_some_iff.1 hread
      cases heq
    · obtain ⟨_, -, heq⟩ := Option.map_eq_some_iff.1 hread
      cases heq
    · split at hread
      · cases hread
      · cases hread
  · cases hread

/-- An entry that is a number was read as one: `LeafKind.ofEntry` tries dates,
times and booleans too, and none of those is a number. -/
theorem read?_of_ofEntry {reader : Reader} {number : Float}
    (h : LeafKind.ofEntry reader text = .number number) :
    reader.converter.numberReader.read? reader.converter.locale.numbers text = some number := by
  unfold LeafKind.ofEntry at h
  cases hfound : entryKinds.findSome? (reader.converter.read? text) with
  | none =>
    rw [hfound] at h
    cases h
  | some value =>
    rw [hfound] at h
    obtain rfl : value = .number number := by
      cases value with
      | number other => exact congrArg Value.number (LeafKind.number.inj h)
      | _ => cases h
    obtain ⟨kind, hkind, hread⟩ := List.exists_of_findSome?_eq_some hfound
    simp only [entryKinds, List.mem_cons, List.not_mem_nil, or_false] at hkind
    rcases hkind with rfl | rfl | rfl | rfl
    · exact (ne_number_of_momentReader hread number rfl).elim
    · exact (ne_number_of_momentReader hread number rfl).elim
    · exact (ne_number_of_momentReader hread number rfl).elim
    · obtain ⟨_, hnumber, heq⟩ := Option.map_eq_some_iff.1 hread
      rw [hnumber, Value.number.inj heq]

/-- **A number that is an entry is not NaN.** It is made of the digits that a
section collected, or it is a literal in a formula. -/
theorem OfEntry.isNaN {number : Float} (h : OfEntry text (.number number)) :
    number.isNaN = false := by
  obtain ⟨token, htoken, he⟩ := h
  unfold Token.ofEntry? at htoken
  split at htoken
  · cases htoken
  · exact OfFormula.isNaN ⟨token, htoken, he⟩
  · rw [← Except.ok.inj htoken] at he
    cases he
  · unfold Token.leaf? at htoken
    split at htoken
    · cases htoken
    · rw [← Except.ok.inj htoken] at he
      have hkind : LeafKind.ofEntry .standard text = .number number := by
        change (LeafKind.ofEntry .standard text).expression? text = .ok (.number number) at he
        cases hkind : LeafKind.ofEntry .standard text with
        | number other =>
          rw [hkind] at he
          exact congrArg LeafKind.number (Expression.number.inj (Except.ok.inj he))
        | _ =>
          rw [hkind] at he
          cases he
      have hread := read?_of_ofEntry hkind
      rw [numberReader_standard] at hread
      exact Read.isNaN_of_read?_generalReader hread

/-- **A value that is not finite** is that of an infinite literal by itself. -/
theorem not_isFinite_evaluate_iff (hsurroundings : surroundings.IsFinite)
    (h : e.OfFormula text ∨ e.OfEntry text) :
    ¬(e.evaluate surroundings).IsFinite ↔
      ∃ number, e = .number number ∧ number.isInf = true := by
  rw [isFinite_evaluate_iff hsurroundings]
  constructor
  · intro hliteral
    obtain ⟨number, hnumber⟩ := not_forall.1 hliteral
    obtain ⟨rfl, hfinite⟩ := Classical.not_imp.1 hnumber
    have hnan : number.isNaN = false := h.elim OfFormula.isNaN OfEntry.isNaN
    exact ⟨number, rfl, Number.isInf_of_isNaN hnan (Bool.eq_false_iff.2 hfinite)⟩
  · rintro ⟨number, rfl, hinf⟩ hfinite
    have hnone := (Number.isNaN_isInf_of_isFinite (hfinite number rfl)).2
    exact Bool.false_ne_true (hnone.symm.trans hinf)

end Expression

/-! ## The value of an entry

An entry is read, taken to its expression and evaluated, and each of the steps
is a function. So the value of a text is that of the one expression it comes
to. -/

/-- **The value of an entry** is that of its expression, and nothing for an
empty one. There is no other way for `evaluateText` to come to a value. -/
theorem evaluateText_eq_ok {text : List Char} {value : Value}
    (h : Formula.evaluateText text = .ok value) :
    text = [] ∧ value = .empty ∨
      ∃ e : Expression, e.OfEntry text ∧ value = e.evaluate .standard := by
  unfold Formula.evaluateText at h
  split at h
  · cases h
  · rename_i formula hset
    split at h
    · cases h
    · rename_i after hevaluate
      obtain rfl := Except.ok.inj h
      obtain ⟨parsed, reduced, hparse, hreduce, rfl⟩ := Formula.evaluate_eq_ok hevaluate
      obtain ⟨-, rfl⟩ := Formula.setText_eq_ok_iff.1 hset
      cases text with
      | nil =>
        obtain rfl := Except.ok.inj hparse
        obtain rfl := Except.ok.inj hreduce
        exact .inl ⟨rfl, rfl⟩
      | cons c text =>
        right
        rcases Formula.parse_eq_ok hparse with ⟨hdone, -⟩ | ⟨hnone, -, token, htoken, hset⟩
        · -- a formula whose text was just set has neither a tree nor an
          -- expression yet, so both steps have work to do
          rcases hdone with hdone | hdone
          · cases hdone
          · cases hdone
        · obtain ⟨-, rfl⟩ := Formula.setToken_some_eq_ok hnone hset
          rcases Formula.reduce_eq_ok hreduce with ⟨hdone, -⟩ | ⟨-, _, e, htoken', he, rfl⟩
          · rcases hdone with hdone | hdone
            · cases hdone
            · cases hdone
          · obtain rfl := Option.some.inj htoken'
            exact ⟨e, ⟨token, htoken, he⟩, rfl⟩

theorem evaluateText_of_ofEntry {text : List Char} {e : Expression} (h : e.OfEntry text)
    (hlength : text.length ≤ Formula.maxLength) :
    Formula.evaluateText text = .ok (e.evaluate .standard) := by
  obtain ⟨token, htoken, he⟩ := h
  have hsome : text ≠ [] := by
    rintro rfl
    cases htoken
  have hisEmpty : text.isEmpty = false := List.isEmpty_eq_false_iff.2 hsome
  have hset : Formula.empty.setText text = .ok ⟨some text, none, none, none⟩ := by
    rw [Formula.setText_eq_ok_iff, hisEmpty]
    exact ⟨hlength, (if_neg hsome.symm).symm⟩
  -- the tree spells the entry, so it is no longer than the entry
  have hfault : Formula.lengthFault? token.text = none := by
    rwa [Formula.lengthFault?_eq_none_iff, Token.text_of_ofEntry? htoken]
  have hsetToken : Formula.setToken ⟨some text, none, none, none⟩ (some token) =
      .ok ⟨Formula.keptText (some text) (some token), some token, none, none⟩ := by
    rw [Formula.setToken, if_neg (by exact Bool.false_ne_true), Option.bind_some, hfault]
    rfl
  have hparse : Formula.parse .standard ⟨some text, none, none, none⟩ =
      .ok ⟨Formula.keptText (some text) (some token), some token, none, none⟩ := by
    rw [Formula.parse, show Formula.text ⟨some text, none, none, none⟩ = text from rfl, hisEmpty,
      if_neg (by exact Bool.false_ne_true), htoken]
    exact hsetToken
  rw [Formula.evaluateText, hset]
  dsimp only
  rw [Formula.evaluate, hparse]
  dsimp only
  rw [Formula.reduce]
  dsimp only
  rw [he]
  rfl

/-- **Overflow is an error, but for a literal by itself.** Where references and
calls give finite numbers only, the value of a text is an infinity just when the
text comes to an infinite number by itself, as a formula or as an entry, and is
never NaN. -/
theorem not_isFinite_iff (text : List Char) :
    (∀ (e : Expression) (surroundings : Surroundings), surroundings.IsFinite →
        e.OfFormula text ∨ e.OfEntry text →
          (¬(e.evaluate surroundings).IsFinite ↔
            ∃ number, e = .number number ∧ number.isInf = true)) ∧
      ∀ value, Formula.evaluateText text = .ok value →
        (¬value.IsFinite ↔
          ∃ number, (Expression.number number).OfEntry text ∧ number.isInf = true) := by
  refine ⟨fun e surroundings => Expression.not_isFinite_evaluate_iff, fun value hvalue => ?_⟩
  rcases evaluateText_eq_ok hvalue with ⟨rfl, rfl⟩ | ⟨e, he, rfl⟩
  · refine iff_of_false (fun h => h nofun) ?_
    rintro ⟨number, ⟨token, htoken, -⟩, -⟩
    cases htoken
  · rw [Expression.not_isFinite_evaluate_iff Surroundings.isFinite_standard (.inr he)]
    constructor
    · rintro ⟨number, rfl, hinf⟩
      exact ⟨number, he, hinf⟩
    · rintro ⟨number, hnumber, hinf⟩
      exact ⟨number, he.unique hnumber, hinf⟩

/-! ## An infinite literal -/

theorem ofFormula_infinite : (Expression.number Number.infinite).OfFormula "=1E400".toList :=
  ⟨_, ofFormula?_infinite, rfl⟩

theorem ofEntry_infinite : (Expression.number Number.infinite).OfEntry "=1E400".toList :=
  Expression.OfFormula.ofEntry ofFormula_infinite rfl

/-- An entry that is an infinite literal has it for its value. -/
theorem evaluateText_infinite :
    Formula.evaluateText "=1E400".toList = .ok (.number Number.infinite) :=
  evaluateText_of_ofEntry ofEntry_infinite (by decide)

/-- **An infinite literal by itself** is a value that is not finite: `=1E400` is
read, and evaluating it gives the infinity back without looking at it. -/
theorem infinite_literal :
    Surroundings.standard.IsFinite ∧ ∃ (e : Expression) (number : Float),
      e.OfFormula "=1E400".toList ∧ e.OfEntry "=1E400".toList ∧
      e.evaluate .standard = .number number ∧
      Formula.evaluateText "=1E400".toList = .ok (.number number) ∧ number.isInf = true :=
  ⟨Surroundings.isFinite_standard, .number Number.infinite, Number.infinite, ofFormula_infinite,
    ofEntry_infinite, rfl, evaluateText_infinite, by decide⟩

/-- An infinite literal against both sides of `not_isFinite_iff`, as a formula
and as an entry. -/
theorem not_isFinite_iff_infinite :
    Surroundings.standard.IsFinite ∧
      (Expression.number Number.infinite).OfFormula "=1E400".toList ∧
      ¬((Expression.number Number.infinite).evaluate .standard).IsFinite ∧
      Formula.evaluateText "=1E400".toList = .ok (.number Number.infinite) ∧
      ¬(Value.number Number.infinite).IsFinite := by
  obtain ⟨hevaluate, hvalue⟩ := not_isFinite_iff "=1E400".toList
  exact ⟨Surroundings.isFinite_standard, ofFormula_infinite,
    (hevaluate _ _ Surroundings.isFinite_standard (.inl ofFormula_infinite)).2
      ⟨_, rfl, by decide⟩,
    evaluateText_infinite, (hvalue _ evaluateText_infinite).2 ⟨_, ofEntry_infinite, by decide⟩⟩

end Formula

end Worksheet
