import Worksheet.Proofs.Stored.Nodes
import Worksheet.Proofs.Stored.Values
import Worksheet.Stored.Formula

/-!
# Stored formulas are read back

A formula is stored with as much of it as there is: its text, its tree, its
expression and its value. Trees are stored node by node, expressions operand by
operand, and both are read back at any depth (`Formula.Token.ofDatum?_toDatum`,
`Formula.Expression.ofDatum?_toDatum`). What a formula lacks is not written, and
what is written is never null, so that a formula comes back with the parts it
had (`Formula.ofDatum?_toDatum`).
-/

namespace Worksheet.Formula

theorem Operator.ofDatum?_toDatum (operator : Operator) :
    Operator.ofDatum? operator.toDatum = some operator := by
  cases operator <;> rfl

theorem Mark.ofDatum?_toDatum (mark : Mark) : Mark.ofDatum? mark.toDatum = some mark := by
  cases mark with
  | operator sign => cases sign <;> rfl
  | _ => rfl

namespace LeafKind

/-- A kind of leaf that fits the words it is kept in. -/
def Storable : LeafKind → Prop
  | .dateTime value => value.time.IsProper
  | .time value => value.IsProper
  | .cell target => target.Storable
  | _ => True

/-- **A stored kind of leaf is read back.** -/
theorem ofForm?_form {kind : LeafKind} (h : kind.Storable) : ofForm? kind.form = some kind := by
  cases kind with
  | error kind => exact congrArg (Option.map error) kind.ofDatum?_toDatum
  | date value => exact congrArg (Option.map date) value.ofDatum?_toDatum
  | dateTime value => exact congrArg (Option.map dateTime) (DateTime.ofDatum?_toDatum h)
  | time value => exact congrArg (Option.map time) (TimeOfDay.ofDatum?_toDatum h)
  | cell target => exact congrArg (Option.map cell) (Cell.ofDatum?_toDatum h)
  | label target => exact congrArg (Option.map label) target.ofDatum?_toDatum
  | mark sign => exact congrArg (Option.map mark) sign.ofDatum?_toDatum
  | number | text | boolean | functionName | blank => rfl

/-- **A kind of leaf that is read fits the words it is kept in.** -/
theorem storable_of_ofForm? {kind : LeafKind} {form : Datum.KindForm}
    (h : ofForm? form = some kind) : kind.Storable := by
  unfold ofForm? at h
  split at h
  -- the two cases that hold nothing to read
  case h_12 =>
    obtain rfl := Option.some.inj h
    trivial
  case h_13 => cases h
  all_goals
    obtain ⟨content, hcontent, rfl⟩ := Option.map_eq_some_iff.1 h
    first
      | exact Cell.storable_of_ofDatum? hcontent
      | exact TimeOfDay.isProper_of_ofDatum? hcontent
      | exact DateTime.isProper_of_ofDatum? hcontent
      | trivial

theorem plain_form (kind : LeafKind) : kind.form.2.Plain := by
  cases kind <;> rfl

end LeafKind

namespace ParentKind

/-- **A stored kind of inner node is read back.** -/
theorem ofForm?_form (kind : ParentKind) : ofForm? kind.form = some kind := by
  cases kind with
  | binary operator => exact congrArg (Option.map binary) operator.ofDatum?_toDatum
  | _ => rfl

theorem plain_form (kind : ParentKind) : kind.form.2.Plain := by
  cases kind <;> rfl

end ParentKind

namespace Token

/-- **A tree whose leaves fit the words they are kept in.** -/
inductive Storable : Token → Prop
  | leaf {kind : LeafKind} (hkind : kind.Storable) (text : List Char) :
      Storable (.leaf kind text)
  | parent (kind : ParentKind) {children : List Token}
      (hchildren : ∀ child ∈ children, Storable child) (text : List Char) :
      Storable (.parent kind children text)

/-- **A stored tree is read back**, as any tree with a `Datum.NodeReader` is
whose kinds are. -/
theorem ofDatum?_toDatum {token : Token} (h : token.Storable) :
    ofDatum? token.toDatum = some token := by
  induction h with
  | @leaf kind hkind text =>
    exact reader.node?_ofLeaf (LeafKind.ofForm?_form hkind) kind.plain_form text
  | @parent kind children _ text ih =>
    rw [toDatum, Datum.writeItems_eq_map toDatum toData rfl (fun _ _ => rfl) children]
    exact reader.node?_ofParent kind.ofForm?_form kind.plain_form ih text

/-- **A tree that is read fits the words it is kept in.** Nothing else is asked
of it. -/
theorem storable_of_ofDatum? {datum : Datum} {token : Token} (h : ofDatum? datum = some token) :
    token.Storable :=
  reader.node?_induction
    (fun _ _ text hkind => .leaf (LeafKind.storable_of_ofForm? hkind) text)
    (fun kind _ text hchildren => .parent kind hchildren text) h

end Token

namespace Expression

/-- **An expression whose operands fit the words they are kept in.** -/
inductive Storable : Expression → Prop
  | number (value : Float) : Storable (.number value)
  | text (value : List Char) : Storable (.text value)
  | boolean (value : Bool) : Storable (.boolean value)
  | date (value : Date) : Storable (.date value)
  | dateTime {value : DateTime} (hvalue : value.time.IsProper) : Storable (.dateTime value)
  | time {value : TimeOfDay} (hvalue : value.IsProper) : Storable (.time value)
  | error (kind : CellErrorKind) : Storable (.error kind)
  | reference {selection : Selection} (hselection : selection.Storable) :
      Storable (.reference selection)
  | negative {operand : Expression} (hoperand : Storable operand) : Storable (.negative operand)
  | percentage {operand : Expression} (hoperand : Storable operand) :
      Storable (.percentage operand)
  | binary (operator : Operator) {left right : Expression} (hleft : Storable left)
      (hright : Storable right) : Storable (.binary operator left right)
  | call (name : List Char) {arguments : List Expression}
      (harguments : ∀ argument ∈ arguments, Storable argument) : Storable (.call name arguments)

theorem ofData?_map {expressions : List Expression}
    (h : ∀ expression ∈ expressions, ofDatum? expression.toDatum = some expression) :
    ofData? (expressions.map toDatum) = some expressions :=
  Datum.readItems?_map (by rw [ofData?]) (fun item items => by rw [ofData?]; rfl) h

/-- An expression without operands is read back from its case. -/
theorem ofDatum?_tagged {case : String}
    (hcase : case ∉ ["Negative", "Percentage", "Binary", "Call"]) (content : Datum) :
    ofDatum? (.tagged case content) = atom? case content := by
  simp only [List.mem_cons, List.not_mem_nil, or_false, not_or] at hcase
  obtain ⟨hnegative, hpercentage, hbinary, hcall⟩ := hcase
  rw [ofDatum?, Datum.tagged, Datum.case?]
  simp only [if_neg hnegative, if_neg hpercentage, if_neg hbinary, if_neg hcall]

/-- **A stored expression is read back**, by induction on the expression. Only
the cases with operands have anything to do. -/
theorem ofDatum?_toDatum {expression : Expression} (h : expression.Storable) :
    ofDatum? expression.toDatum = some expression := by
  induction h with
  | number | text | boolean =>
    rw [toDatum, ofDatum?_tagged (by decide)]
    rfl
  | date value =>
    rw [toDatum, ofDatum?_tagged (by decide)]
    exact congrArg (Option.map date) value.ofDatum?_toDatum
  | dateTime hvalue =>
    rw [toDatum, ofDatum?_tagged (by decide)]
    exact congrArg (Option.map dateTime) (DateTime.ofDatum?_toDatum hvalue)
  | time hvalue =>
    rw [toDatum, ofDatum?_tagged (by decide)]
    exact congrArg (Option.map time) (TimeOfDay.ofDatum?_toDatum hvalue)
  | error kind =>
    rw [toDatum, ofDatum?_tagged (by decide)]
    exact congrArg (Option.map error) kind.ofDatum?_toDatum
  | reference hselection =>
    rw [toDatum, ofDatum?_tagged (by decide)]
    exact congrArg (Option.map reference) (Selection.ofDatum?_toDatum hselection)
  | negative _ ih =>
    rw [toDatum, ofDatum?, Datum.tagged, Datum.case?]
    exact congrArg (Option.map negative) ih
  | percentage _ ih =>
    rw [toDatum, ofDatum?, Datum.tagged, Datum.case?]
    exact congrArg (Option.map percentage) ih
  | @binary operator left right _ _ ihleft ihright =>
    have hfields : ofDatum? (binary operator left right).toDatum
        = (Operator.ofDatum? operator.toDatum).bind fun operator =>
          (ofDatum? left.toDatum).bind fun left =>
            (ofDatum? right.toDatum).bind fun right => some (.binary operator left right) := by
      rw [toDatum, ofDatum?, Datum.tagged, Datum.case?]
      rfl
    rw [hfields, operator.ofDatum?_toDatum, ihleft, ihright]
    rfl
  | @call name arguments _ ih =>
    have hfields : ofDatum? (call name arguments).toDatum
        = (ofData? (toData arguments)).bind fun arguments => some (.call name arguments) := by
      rw [toDatum, ofDatum?, Datum.tagged, Datum.case?]
      rfl
    rw [hfields, Datum.writeItems_eq_map toDatum toData rfl (fun _ _ => rfl) arguments,
      ofData?_map ih]
    rfl

end Expression

/-! ## Formulas

A formula is read freely, that is, with whatever parts are there. Each part is
stored under a name of its own, and a missing one under none. -/

/-- A formula whose parts fit the words they are kept in. -/
structure Storable (formula : Formula) : Prop where
  token : ∀ token ∈ formula.token, token.Storable
  expression : ∀ expression ∈ formula.expression, expression.Storable
  value : ∀ value ∈ formula.value, value.Storable

/-- **A stored formula is read back**, with the parts it had: a part that is
missing is not written, and none that is there is written as null. -/
theorem ofDatum?_toDatum {formula : Formula} (h : formula.Storable) :
    ofDatum? formula.toDatum = some formula := by
  obtain ⟨stored, token, expression, value⟩ := formula
  -- a part that is missing is read as null, which is what `ofOption` writes for it
  have hfields : ofDatum? (Formula.mk stored token expression value).toDatum
      = ((Datum.ofOption .text stored).option? Datum.text?).bind fun stored =>
        ((Datum.ofOption Token.toDatum token).option? Token.ofDatum?).bind fun token =>
          ((Datum.ofOption Expression.toDatum expression).option? Expression.ofDatum?).bind
            fun expression =>
              ((Datum.ofOption Value.toDatum value).option? Value.ofDatum?).bind fun value =>
                some ⟨stored, token, expression, value⟩ := by
    cases stored <;> cases token <;> cases expression <;> cases value <;> rfl
  rw [hfields, Datum.option?_ofOption (o := stored) (fun _ => rfl) fun _ _ => rfl,
    Datum.option?_ofOption (fun token => by cases token <;> rfl) fun token htoken =>
      Token.ofDatum?_toDatum (h.token token htoken),
    Datum.option?_ofOption (fun expression => by cases expression <;> rfl)
      fun expression hexpression =>
        Expression.ofDatum?_toDatum (h.expression expression hexpression),
    Datum.option?_ofOption (fun value => by cases value <;> rfl) fun value hvalue =>
      Value.ofDatum?_toDatum (h.value value hvalue)]
  rfl

end Worksheet.Formula
