import Worksheet.Proofs.Text.Digits
import Worksheet.Read.Number

/-!
# Digits and steps one after the other

The last place of a run takes all digits there are, and passes over the
separators between them (`takeDigits_separated`); where none are passed over it
takes the digits up to the first other character (`takeDigits_append`). The
steps of a section are taken one after the other, so the steps of its parts can
be gone through by themselves (`takeSteps?_append`).
-/

namespace Worksheet.Read

variable {separator : Option Char} {started : Bool} {text digits rest : List Char}

/-! ## Digits -/

/-- **Digits with separators between them**, here and there: each separator has
a digit on both sides. `started` says that there is a digit before. -/
inductive SeparatedDigits (separator : Option Char) : Bool → List Char → Prop
  | nil {started : Bool} : SeparatedDigits separator started []
  | digit {started : Bool} {c : Char} {rest : List Char} (hdigit : c.isDigit = true)
      (hrest : SeparatedDigits separator true rest) : SeparatedDigits separator started (c :: rest)
  | mark {mark c : Char} {rest : List Char} (hmark : separator = some mark)
      (hdigit : c.isDigit = true) (hrest : SeparatedDigits separator true (c :: rest)) :
      SeparatedDigits separator true (mark :: c :: rest)

theorem separatedDigits_of_all (h : ∀ c ∈ digits, c.isDigit = true) :
    SeparatedDigits separator started digits := by
  induction digits generalizing started with
  | nil => exact .nil
  | cons c digits ih =>
    obtain ⟨hc, hrest⟩ := List.forall_mem_cons.1 h
    exact .digit hc (ih hrest)

theorem SeparatedDigits.isDigit_or_eq (h : SeparatedDigits separator started text) :
    ∀ c ∈ text, c.isDigit = true ∨ separator = some c := by
  induction h with
  | nil => exact nofun
  | digit hdigit _ ih => exact List.forall_mem_cons.2 ⟨.inl hdigit, ih⟩
  | mark hseparator _ _ ih => exact List.forall_mem_cons.2 ⟨.inr hseparator, ih⟩

/-- Where digits end: there is no digit and no separator. A separator there
would be looked behind. -/
def EndsDigits (separator : Option Char) (rest : List Char) : Prop :=
  ∀ c ∈ rest.head?, c.isDigit = false ∧ separator ≠ some c

/-- **All digits are taken**, and the separators between them are passed over.
By induction on `SeparatedDigits`, whose constructors are the branches of
`takeDigits`. -/
theorem takeDigits_separated (hmark : ∀ mark ∈ separator, mark.isDigit = false)
    (htext : SeparatedDigits separator started text) (hrest : EndsDigits separator rest) :
    takeDigits separator started (text ++ rest) = (text.filter Char.isDigit, rest) := by
  induction htext with
  | nil =>
    cases rest with
    | nil => rfl
    | cons c rest =>
      obtain ⟨hdigit, hseparator⟩ := hrest c rfl
      rw [List.nil_append, takeDigits]
      simp [hdigit, hseparator]
  | digit hdigit _ ih =>
    rw [List.cons_append, takeDigits, if_pos hdigit, ih, List.filter_cons_of_pos hdigit]
  | mark hseparator hdigit _ ih =>
    rename_i mark c others _
    have hno : mark.isDigit = false := hmark mark hseparator
    rw [List.cons_append, takeDigits, if_neg (by simp [hno]), if_pos (by simp [hseparator, hdigit]),
      ih, List.filter_cons_of_neg (a := mark) (by simp [hno])]

/-- **A run of digits** is taken up to where it ends, without separators. -/
theorem takeDigits_append (started : Bool) (h : ∀ c ∈ digits, c.isDigit = true)
    (hrest : Text.Stops Char.isDigit rest) :
    takeDigits none started (digits ++ rest) = (digits, rest) := by
  have hends : EndsDigits none rest := by
    rintro c hc
    obtain ⟨others, rfl⟩ := List.head?_eq_some_iff.1 hc
    exact ⟨Text.stops_cons.1 hrest, nofun⟩
  have hnone : ∀ mark ∈ (none : Option Char), mark.isDigit = false := fun mark hmark =>
    absurd hmark (Option.not_mem_none mark)
  rw [takeDigits_separated hnone (separatedDigits_of_all h) hends, List.filter_eq_self.2 h]

/-! ## Steps

Places in front and behind are compiled into one list. The lemmas on its parts
go together by these two, in the order of the list. -/

/-- Steps are taken one after the other, so those in front may be gone through
by themselves. -/
theorem takeSteps?_append (signs : NumberSigns) (grouping : Bool) (steps more : List Step)
    (collected : Collected) (text : List Char) :
    takeSteps? signs grouping (steps ++ more) collected text
      = (takeSteps? signs grouping steps collected text).bind
          fun found => takeSteps? signs grouping more found.1 found.2 := by
  induction steps generalizing collected text with
  | nil => rfl
  | cons step steps ih =>
    rw [List.cons_append, takeSteps?, takeSteps?]
    cases step.take? signs grouping collected text with
    | none => rfl
    | some found => exact ih found.1 found.2

theorem takeSteps?_append_of_eq_some {signs : NumberSigns} {grouping : Bool} {steps : List Step}
    (more : List Step) {collected collected' : Collected}
    (h : takeSteps? signs grouping steps collected text = some (collected', rest)) :
    takeSteps? signs grouping (steps ++ more) collected text
      = takeSteps? signs grouping more collected' rest := by
  rw [takeSteps?_append, h, Option.bind_some]

end Worksheet.Read
