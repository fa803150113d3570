import Worksheet.Proofs.Formula.Literals
import Worksheet.Proofs.Formula.Remainder
import Worksheet.Proofs.Reference.Selections

/-!
# What the lexemes of a formula stand for

A text that is scanned gives lexemes of certain kinds only: cells of the sheet,
labels that are no booleans, names that start and go on like labels, and numbers
without a sign, finite or else infinite (`LeafKind.Legible`). Dates and times do
not come up. The leaves of any formula that is read are of these kinds
(`legible_of_lexemes`).

Numbers have no sign because the pattern for them reads none: in a formula signs
are operators, and neither of its sections has a percent sign or scales what it
reads (`isSize_of_readNumber?`).
-/

namespace Worksheet.Formula

/-! ## Lexemes -/

/-- **What a lexeme of a formula can stand for.** Numbers are sizes
(`Number.IsSize`), cells are in the sheet, and dates and times are never read. -/
def LeafKind.Legible : LeafKind → Prop
  | .number value => Number.IsSize value
  | .cell target => target.InSheet
  | .label target => Converter.boolean? target.text = none
  | .functionName name => ∃ first tail, name = first :: tail ∧ IsName first tail
  | .date _ | .dateTime _ | .time _ => False
  | _ => True

/-- A word is the name of a function, a boolean, or a label that is none. -/
theorem legible_of_scanWord {first : Char} {rest after : List Char} {kind : LeafKind}
    (hfirst : first = '$' ∨ Label.isStart first = true)
    (h : scanWord first rest = .ok (kind, after)) : kind.Legible := by
  simp only [scanWord] at h
  split at h
  · cases h
  · rename_i hdollar
    split at h
    · obtain ⟨rfl, -⟩ := Prod.mk.inj (Except.ok.inj h)
      refine ⟨first, _, rfl, hfirst.resolve_left hdollar, fun c hc => ?_⟩
      exact List.all_eq_true.1 List.all_takeWhile c hc
    · split at h
      · obtain ⟨rfl, -⟩ := Prod.mk.inj (Except.ok.inj h)
        trivial
      · rename_i hboolean
        split at h
        · rename_i label hlabel
          obtain ⟨rfl, -⟩ := Prod.mk.inj (Except.ok.inj h)
          show Converter.boolean? label.text = none
          rwa [Label.text_of_ofText? hlabel]
        · cases h

theorem legible_of_scanName {first : Char} {rest after : List Char} {kind : LeafKind}
    (hfirst : first = '$' ∨ Label.isStart first = true)
    (h : scanName first rest = .ok (kind, after)) : kind.Legible := by
  unfold scanName at h
  split at h
  · rename_i cell behind hcell
    split at h
    · exact legible_of_scanWord hfirst h
    · obtain ⟨rfl, -⟩ := Prod.mk.inj (Except.ok.inj h)
      exact Cell.inSheet_of_scan hcell
  · exact legible_of_scanWord hfirst h

theorem isSize_of_readNumber? {text rest : List Char} {value : Float}
    (h : Reader.standard.readNumber? text = some (value, rest)) : Number.IsSize value := by
  rw [Reader.readNumber?_standard] at h
  obtain ⟨numeral, -, -, rfl⟩ := Read.exists_numeral_of_readFront? h
  exact Number.Decimal.isSize_toFloat _

/-- **A lexeme that is scanned** is of one of the kinds, by cases on its first
character. -/
theorem legible_of_scan {first : Char} {rest after : List Char} {kind : LeafKind}
    (h : scan Reader.standard first rest = .ok (kind, after)) : kind.Legible := by
  unfold scan at h
  -- in the scanner's order: text, error code, blanks, number, name, mark
  split at h
  · split at h
    · obtain ⟨rfl, -⟩ := Prod.mk.inj (Except.ok.inj h)
      trivial
    · cases h
  split at h
  · split at h
    · obtain ⟨rfl, -⟩ := Prod.mk.inj (Except.ok.inj h)
      trivial
    · cases h
  split at h
  · obtain ⟨rfl, -⟩ := Prod.mk.inj (Except.ok.inj h)
    trivial
  split at h
  · split at h
    · rename_i hnumber
      obtain ⟨rfl, -⟩ := Prod.mk.inj (Except.ok.inj h)
      exact isSize_of_readNumber? hnumber
    · cases h
  split at h
  · rename_i hname
    exact legible_of_scanName (by simpa using hname) h
  split at h
  · obtain ⟨rfl, -⟩ := Prod.mk.inj (Except.ok.inj h)
    trivial
  · cases h

theorem legible_of_lexemesFrom {position : Nat} {opened : List Nat} {text : List Char}
    {input : List Lexeme} (h : lexemesFrom Reader.standard position opened text = .ok input) :
    ∀ lexeme ∈ input, lexeme.kind.Legible := by
  fun_induction lexemesFrom Reader.standard position opened text generalizing input with
  | case1 =>
    obtain rfl := Except.ok.inj h
    exact fun _ hmem => absurd hmem List.not_mem_nil
  | case2 => cases h
  | case3 => cases h
  | case4 => cases h
  | case5 => cases h
  | case6 =>
    rename_i hscan _ _ _ _ hmore ih
    obtain rfl := Except.ok.inj h
    exact List.forall_mem_cons.2 ⟨legible_of_scan hscan, ih hmore⟩

/-- **The lexemes of a formula are of these kinds.** So nothing that `lexemes`
finds makes a leaf that could not be written and read again. -/
theorem legible_of_lexemes {text : List Char} {input : List Lexeme}
    (h : lexemes Reader.standard text = .ok input) : ∀ lexeme ∈ input, lexeme.kind.Legible :=
  legible_of_lexemesFrom h

end Worksheet.Formula
