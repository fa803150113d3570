import Worksheet.Proofs.Stored.Nodes
import Worksheet.Proofs.Stored.Values
import Worksheet.Stored.Pattern

/-!
# Stored patterns are read back

The tree of a pattern is stored node by node, each with the name of its kind.
Some names are those of a leaf and of an inner node alike, as `Text` and
`General` are; a tree is read back all the same
(`Pattern.Token.ofDatum?_toDatum`), and with it a pattern
(`Pattern.ofDatum?_toDatum`). The counts of letters, the denominators and the
numbers of colours have to fit the words they are kept in.
-/

namespace Worksheet.Pattern

theorem Comparison.ofDatum?_toDatum (comparison : Comparison) :
    Comparison.ofDatum? comparison.toDatum = some comparison := by
  cases comparison <;> rfl

def Colour.Storable : Colour → Prop
  | .numbered number => number < 2 ^ 32
  | _ => True

theorem Colour.ofDatum?_toDatum {colour : Colour} (h : colour.Storable) :
    Colour.ofDatum? colour.toDatum = some colour := by
  cases colour with
  | numbered number => exact congrArg (Option.map numbered) (Datum.nat?_ofNat h)
  | _ => rfl

/-- The number of a colour that is read has 32 bits; a colour with a name has
none. -/
theorem Colour.storable_of_ofDatum? {colour : Colour} {datum : Datum}
    (h : Colour.ofDatum? datum = some colour) : colour.Storable := by
  unfold ofDatum? at h
  split at h
  · obtain ⟨number, hnumber, rfl⟩ := Option.map_eq_some_iff.1 h
    exact Datum.lt_of_nat? hnumber
  · obtain ⟨entry, hentry, rfl⟩ := Option.map_eq_some_iff.1 h
    have hnamed := List.mem_of_find?_eq_some hentry
    obtain ⟨colour, name⟩ := entry
    cases colour <;> trivial
  · cases h

namespace LeafKind

/-- A kind of leaf whose numbers fit the words they are kept in: counts 64 bits,
the numbers of colours and denominators 32. -/
def Storable : LeafKind → Prop
  | .day count | .month count | .monthOrMinute count | .year count | .hour count
  | .second count => count < 2 ^ 64
  | .fractionDenominator value => value < 2 ^ 32
  | .colourName colour => colour.Storable
  | .colourNumber number => number < 2 ^ 32
  | _ => True

/-- **A stored kind of leaf is read back.** -/
theorem ofForm?_form {kind : LeafKind} (h : kind.Storable) : ofForm? kind.form = some kind := by
  cases kind with
  | day count => exact congrArg (Option.map day) (Datum.nat?_ofNat h)
  | month count => exact congrArg (Option.map month) (Datum.nat?_ofNat h)
  | monthOrMinute count => exact congrArg (Option.map monthOrMinute) (Datum.nat?_ofNat h)
  | year count => exact congrArg (Option.map year) (Datum.nat?_ofNat h)
  | hour count => exact congrArg (Option.map hour) (Datum.nat?_ofNat h)
  | second count => exact congrArg (Option.map second) (Datum.nat?_ofNat h)
  | fractionDenominator value =>
    exact congrArg (Option.map fractionDenominator) (Datum.nat?_ofNat h)
  | colourName colour => exact congrArg (Option.map colourName) (Colour.ofDatum?_toDatum h)
  | colourNumber number => exact congrArg (Option.map colourNumber) (Datum.nat?_ofNat h)
  | conditionSymbol comparison =>
    exact congrArg (Option.map conditionSymbol) comparison.ofDatum?_toDatum
  | _ => rfl

/-- **A kind of leaf that is read fits the words it is kept in.** -/
theorem storable_of_ofForm? {kind : LeafKind} {form : Datum.KindForm}
    (h : ofForm? form = some kind) : kind.Storable := by
  unfold ofForm? at h
  split at h
  -- a kind without contents is one of those that hold nothing
  case h_17 =>
    have hplain := List.mem_of_find?_eq_some h
    cases kind <;> first | trivial | simp [plain] at hplain
  case h_18 => cases h
  all_goals
    obtain ⟨content, hcontent, rfl⟩ := Option.map_eq_some_iff.1 h
    first
      | exact Datum.lt_of_nat? hcontent
      | exact Colour.storable_of_ofDatum? hcontent
      | trivial

theorem plain_form (kind : LeafKind) : kind.form.2.Plain := by
  cases kind with
  | colourName colour => cases colour <;> rfl
  | _ => rfl

end LeafKind

namespace ParentKind

/-- **A stored kind of inner node is read back.** -/
theorem ofForm?_form (kind : ParentKind) : ofForm? kind.form = some kind := by
  cases kind with
  | condition comparison => exact congrArg (Option.map condition) comparison.ofDatum?_toDatum
  | _ => rfl

theorem plain_form (kind : ParentKind) : kind.form.2.Plain := by
  cases kind <;> rfl

end ParentKind

namespace Token

/-- **A tree whose numbers fit the words they are kept in.** -/
inductive Storable : Token → Prop
  | leaf {kind : LeafKind} (hkind : kind.Storable) (text : List Char) :
      Storable (.leaf kind text)
  | parent (kind : ParentKind) {children : List Token}
      (hchildren : ∀ child ∈ children, Storable child) (text : List Char) :
      Storable (.parent kind children text)

/-- **A stored tree is read back**, as any tree with a `Datum.NodeReader` is
whose kinds are. -/
theorem ofDatum?_toDatum {token : Token} (h : token.Storable) :
    ofDatum? token.toDatum = some token := by
  induction h with
  | @leaf kind hkind text =>
    exact reader.node?_ofLeaf (LeafKind.ofForm?_form hkind) kind.plain_form text
  | @parent kind children _ text ih =>
    rw [toDatum, Datum.writeItems_eq_map toDatum toData rfl (fun _ _ => rfl) children]
    exact reader.node?_ofParent kind.ofForm?_form kind.plain_form ih text

/-- **A tree that is read fits the words it is kept in.** Nothing else is asked
of it. -/
theorem storable_of_ofDatum? {datum : Datum} {token : Token} (h : ofDatum? datum = some token) :
    token.Storable :=
  reader.node?_induction
    (fun _ _ text hkind => .leaf (LeafKind.storable_of_ofForm? hkind) text)
    (fun kind _ text hchildren => .parent kind hchildren text) h

end Token

/-- **A stored pattern is read back**, whatever its purpose. -/
theorem ofDatum?_toDatum {pattern : Pattern} (h : pattern.token.Storable) :
    ofDatum? pattern.toDatum = some pattern := by
  obtain ⟨kind, token⟩ := pattern
  have hkind : (Datum.name kind.storedName).choice? Kind.all Kind.storedName = some kind := by
    cases kind <;> rfl
  have hfields : ofDatum? (Pattern.mk kind token).toDatum
      = ((Datum.name kind.storedName).choice? Kind.all Kind.storedName).bind fun kind =>
        (Token.ofDatum? token.toDatum).bind fun token => some ⟨kind, token⟩ := rfl
  rw [hfields, hkind, Token.ofDatum?_toDatum h]
  rfl

/-- **The tree of a pattern that is read fits the words it is kept in.** Whether
`Pattern.fault?` finds something in it is not asked. -/
theorem storable_of_ofDatum? {pattern : Pattern} {datum : Datum}
    (h : ofDatum? datum = some pattern) : pattern.token.Storable := by
  unfold ofDatum? at h
  split at h
  · simp only [Option.bind_eq_bind, Option.bind_eq_some_iff] at h
    obtain ⟨kind, -, token, htoken, h⟩ := h
    obtain rfl := Option.some.inj h
    exact Token.storable_of_ofDatum? htoken
  · cases h

end Worksheet.Pattern
