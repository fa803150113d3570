import Worksheet.Formula.Lexeme
import Worksheet.Proofs.Reference.RoundTrip
import Worksheet.Proofs.Text.Case

/-!
# What a scanner leaves is the end of the text

Every scanner of a formula takes characters from the front of a text and hands
on what it did not take. None makes up characters, and none goes back: what it
hands on is a suffix of what it was given, whatever the pattern for numbers
collects on the way and however far a name was read before it turned out to be
no cell. Together with the characters it takes, of which there is at least one
(`length_scan`), what it hands on is the text again (`before_append_of_scan`).
-/

namespace Worksheet

/-! ## Names of symbols -/

theorem CellErrorKind.suffix_of_scan? {text rest : List Char} {kind : CellErrorKind}
    (h : scan? text = some (kind, rest)) : rest <:+ text := by
  obtain ⟨found, -, hfound⟩ := List.exists_of_findSome?_eq_some h
  obtain ⟨after, hafter, heq⟩ := Option.map_eq_some_iff.1 hfound
  exact (Prod.mk.inj heq).2 ▸ Text.suffix_of_dropIgnoringCase? hafter

/-! ## Numbers

A suffix of a suffix is one, so it is enough to look at each kind of step by
itself. A sign, a digit, a separator: each is taken from the front or left. -/

namespace Read

open Pattern Format

theorem suffix_takeDigits (separator : Option Char) (started : Bool) (text : List Char) :
    (takeDigits separator started text).2 <:+ text := by
  fun_induction takeDigits separator started text with
  | case1 => exact List.suffix_refl _
  | case2 started c rest hc digits after heq ih =>
    rw [heq] at ih
    exact ih.trans (List.suffix_cons c rest)
  | case3 started c rest hc hseparator ih => exact ih.trans (List.suffix_cons c rest)
  | case4 => exact List.suffix_refl _

variable (signs : NumberSigns)

theorem Collected.suffix_takeSign (collected : Collected) (text : List Char) :
    (collected.takeSign signs text).2 <:+ text := by
  unfold takeSign
  split
  · split
    · split
      · exact List.suffix_cons _ _
      · split
        · exact List.suffix_cons _ _
        · exact List.suffix_refl _
    · exact List.suffix_refl _
  · exact List.suffix_refl _

theorem suffix_takePlace (grouping : Bool) (placeholder : Placeholder) (zone : Zone)
    (isLast : Bool) (collected : Collected) (text : List Char) :
    (takePlace signs grouping placeholder zone isLast collected text).2 <:+ text := by
  unfold takePlace
  split
  · exact suffix_takeDigits _ _ text
  · split
    · split
      · exact List.suffix_cons _ _
      · split
        · exact List.suffix_cons _ _
        · exact List.suffix_refl _
    · exact List.suffix_refl _

theorem suffix_of_map_dropIgnoringCase? {α : Type} {name text rest : List Char} {kept kept' : α}
    (h : (Text.dropIgnoringCase? name text).map (kept, ·) = some (kept', rest)) :
    rest <:+ text := by
  obtain ⟨after, hafter, heq⟩ := Option.map_eq_some_iff.1 h
  exact (Prod.mk.inj heq).2 ▸ Text.suffix_of_dropIgnoringCase? hafter

variable {signs}

/-- **A step takes characters from the front**, or none. This is one case for
each kind of step, and all there is to say of `takeSteps?` follows from it. -/
theorem Step.suffix_of_take? {grouping : Bool} {step : Step} {collected collected' : Collected}
    {text rest : List Char}
    (h : step.take? signs grouping collected text = some (collected', rest)) : rest <:+ text := by
  cases step with
  | digit placeholder zone isLast =>
    simp only [take?] at h
    split at h
    · obtain ⟨-, rfl⟩ := Prod.mk.inj (Option.some.inj h)
      exact List.suffix_refl _
    · split at h
      -- before the first integer digit there may be a sign
      · have hsign := collected.suffix_takeSign signs text
        have hplace := suffix_takePlace signs grouping placeholder zone isLast
          (collected.takeSign signs text).1 (collected.takeSign signs text).2
        rw [Option.some.inj h] at hplace
        exact hplace.trans hsign
      · have hplace := suffix_takePlace signs grouping placeholder zone isLast collected text
        rwa [Option.some.inj h] at hplace
  | decimalPoint =>
    simp only [take?] at h
    split at h
    · split at h <;> obtain ⟨-, rfl⟩ := Prod.mk.inj (Option.some.inj h)
      · exact List.suffix_cons _ _
      · exact List.suffix_refl _
    · obtain ⟨-, rfl⟩ := Prod.mk.inj (Option.some.inj h)
      exact List.suffix_refl _
  | exponent =>
    simp only [take?] at h
    split at h
    · cases h
    · rename_i after hafter
      have hsymbol : after <:+ text := Text.suffix_of_dropIgnoringCase? hafter
      refine List.IsSuffix.trans ?_ hsymbol
      split at h
      · split at h
        · obtain ⟨-, rfl⟩ := Prod.mk.inj (Option.some.inj h)
          exact List.suffix_cons _ _
        · split at h <;> obtain ⟨-, rfl⟩ := Prod.mk.inj (Option.some.inj h)
          · exact List.suffix_cons _ _
          · exact List.suffix_refl _
      · obtain ⟨-, rfl⟩ := Prod.mk.inj (Option.some.inj h)
        exact List.suffix_refl _
  | currency => exact suffix_of_map_dropIgnoringCase? h
  | percent =>
    simp only [take?] at h
    split at h
    · split at h
      · obtain ⟨-, rfl⟩ := Prod.mk.inj (Option.some.inj h)
        exact List.suffix_cons _ _
      · cases h
    · cases h
  | whitespace =>
    obtain ⟨-, rfl⟩ := Prod.mk.inj (Option.some.inj h)
    exact List.dropWhile_suffix _
  | literal expected => exact suffix_of_map_dropIgnoringCase? h

theorem suffix_of_takeSteps? {grouping : Bool} {steps : List Step}
    {collected collected' : Collected} {text rest : List Char}
    (h : takeSteps? signs grouping steps collected text = some (collected', rest)) :
    rest <:+ text := by
  induction steps generalizing collected text with
  | nil =>
    obtain ⟨-, rfl⟩ := Prod.mk.inj (Option.some.inj h)
    exact List.suffix_refl _
  | cons step steps ih =>
    rw [takeSteps?] at h
    split at h
    · rename_i hstep
      exact (ih h).trans (Step.suffix_of_take? hstep)
    · cases h

theorem NumberCandidate.suffix_of_read? {candidate : NumberCandidate} {mode : Mode}
    {text rest : List Char} {value : Float}
    (h : candidate.read? signs mode text = some (value, rest)) : rest <:+ text := by
  simp only [read?] at h
  split at h
  · cases h
  · rename_i collected after hsteps
    split at h
    · obtain ⟨number, -, heq⟩ := Option.map_eq_some_iff.1 h
      obtain ⟨-, rfl⟩ := Prod.mk.inj heq
      exact (suffix_of_takeSteps? hsteps).trans (Collected.suffix_takeSign signs _ text)
    · cases h

/-- **A number is taken from the front**, whatever the pattern for numbers is. -/
theorem NumberReader.suffix_of_readFront? {reader : NumberReader} {mode : Mode}
    {text rest : List Char} {value : Float}
    (h : reader.readFront? signs mode text = some (value, rest)) : rest <:+ text := by
  obtain ⟨candidate, -, hread⟩ := List.exists_of_findSome?_eq_some h
  exact candidate.suffix_of_read? hread

end Read

/-! ## Lexemes

A name is read twice at times, as a cell and then as a word, and the second
reading begins again at the front. What is left is a suffix in each case. -/

namespace Formula

theorem suffix_of_quotedText? {input text rest : List Char}
    (h : quotedText? input = some (text, rest)) : rest <:+ input := by
  fun_induction quotedText? input generalizing text rest with
  | case1 => cases h
  | case2 input ih =>
    obtain ⟨⟨inner, after⟩, hinner, heq⟩ := Option.map_eq_some_iff.1 h
    obtain ⟨-, rfl⟩ := Prod.mk.inj heq
    exact (ih hinner).trans ((List.suffix_cons _ _).trans (List.suffix_cons _ _))
  | case3 input =>
    obtain ⟨-, rfl⟩ := Prod.mk.inj (Option.some.inj h)
    exact List.suffix_cons _ _
  | case4 c input hne hc ih =>
    obtain ⟨⟨inner, after⟩, hinner, heq⟩ := Option.map_eq_some_iff.1 h
    obtain ⟨-, rfl⟩ := Prod.mk.inj heq
    exact (ih hinner).trans (List.suffix_cons _ _)

theorem eq_of_scanWord {first : Char} {rest after : List Char} {kind : LeafKind}
    (h : scanWord first rest = .ok (kind, after)) : after = rest.dropWhile Label.isPart := by
  simp only [scanWord] at h
  split at h
  · cases h
  · split at h
    · exact (Prod.mk.inj (Except.ok.inj h)).2.symm
    · split at h
      · exact (Prod.mk.inj (Except.ok.inj h)).2.symm
      · split at h
        · exact (Prod.mk.inj (Except.ok.inj h)).2.symm
        · cases h

theorem suffix_of_scanWord {first : Char} {rest after : List Char} {kind : LeafKind}
    (h : scanWord first rest = .ok (kind, after)) : after <:+ first :: rest := by
  rw [eq_of_scanWord h]
  exact (List.dropWhile_suffix _).trans (List.suffix_cons first rest)

theorem suffix_of_scanName {first : Char} {rest after : List Char} {kind : LeafKind}
    (h : scanName first rest = .ok (kind, after)) : after <:+ first :: rest := by
  unfold scanName at h
  split at h
  · rename_i cell behind hcell
    split at h
    · exact suffix_of_scanWord h
    · obtain ⟨-, rfl⟩ := Prod.mk.inj (Except.ok.inj h)
      obtain ⟨front, hfront⟩ := Cell.exists_append_of_scan hcell
      exact ⟨front, hfront.symm⟩
  · exact suffix_of_scanWord h

/-- **A lexeme is taken from the front.** One case for each branch of `scan`. -/
theorem suffix_of_scan {reader : Reader} {first : Char} {rest after : List Char}
    {kind : LeafKind} (h : scan reader first rest = .ok (kind, after)) :
    after <:+ first :: rest := by
  unfold scan at h
  -- in the scanner's order: text, error code, blanks, number, name, mark
  split at h
  · split at h
    · rename_i hquoted
      obtain ⟨-, rfl⟩ := Prod.mk.inj (Except.ok.inj h)
      exact (suffix_of_quotedText? hquoted).trans (List.suffix_cons first rest)
    · cases h
  split at h
  · split at h
    · rename_i hcode
      obtain ⟨-, rfl⟩ := Prod.mk.inj (Except.ok.inj h)
      exact CellErrorKind.suffix_of_scan? hcode
    · cases h
  split at h
  · obtain ⟨-, rfl⟩ := Prod.mk.inj (Except.ok.inj h)
    exact (List.dropWhile_suffix _).trans (List.suffix_cons first rest)
  split at h
  · split at h
    · rename_i hnumber
      obtain ⟨-, rfl⟩ := Prod.mk.inj (Except.ok.inj h)
      exact Read.NumberReader.suffix_of_readFront? hnumber
    · cases h
  split at h
  · exact suffix_of_scanName h
  split at h
  · rename_i hmark
    obtain ⟨-, rfl⟩ := Prod.mk.inj (Except.ok.inj h)
    rw [Mark.eq_append_of_scan? hmark]
    exact List.suffix_append _ _
  · cases h

/-- **A lexeme and what follows it make up the text.** The text of a lexeme is
what is in front of what is left, and for this to be so what is left has to be a
suffix. -/
theorem before_append_of_scan {reader : Reader} {first : Char} {rest after : List Char}
    {kind : LeafKind} (h : scan reader first rest = .ok (kind, after)) :
    Text.before (first :: rest) after ++ after = first :: rest := by
  obtain ⟨front, hfront⟩ := suffix_of_scan h
  rw [← hfront, Text.before_append]

theorem before_ne_nil_of_scan {reader : Reader} {first : Char} {rest after : List Char}
    {kind : LeafKind} (h : scan reader first rest = .ok (kind, after)) :
    Text.before (first :: rest) after ≠ [] := by
  intro hnil
  have hlength := length_scan h
  rw [← before_append_of_scan h, hnil] at hlength
  exact Nat.lt_irrefl _ hlength

end Formula

end Worksheet
