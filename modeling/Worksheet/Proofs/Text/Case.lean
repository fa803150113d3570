import Mathlib.Data.List.Infix
import Mathlib.Tactic.IntervalCases
import Worksheet.Text.Basic

/-!
# Letters in either case

A name is dropped from the front of a text whatever the case of its letters, so
the text begins with the first letter of the name or with its counterpart in the
other case (`Text.mem_bothCases`), and what is left is the end of the text
(`Text.suffix_of_dropIgnoringCase?`).
-/

namespace Worksheet.Text

/-- A character in upper and in lower case. -/
def bothCases (c : Char) : List Char :=
  [c.toUpper, c.toUpper.toLower]

theorem eq_toUpper_or_eq_toLower (c : Char) : c = c.toUpper ∨ c = c.toUpper.toLower := by
  by_cases h : 'a'.val ≤ c.val ∧ c.val ≤ 'z'.val
  · refine .inr ?_
    obtain ⟨n, hn⟩ : ∃ n, c.toNat = n := ⟨_, rfl⟩
    have hlow : 97 ≤ n := hn ▸ h.1
    have hhigh : n ≤ 122 := hn ▸ h.2
    rw [← Char.ofNat_toNat c, hn]
    interval_cases n <;> rfl
  · refine .inl ?_
    unfold Char.toUpper
    rw [dif_neg h]

/-- **Two characters are the same but for their case**, so one is among the two
cases of the other. It is what tables of characters are checked with, where
`dropIgnoringCase?` folds both. -/
theorem mem_bothCases {c d : Char} (h : c.toUpper = d.toUpper) : d ∈ bothCases c := by
  rw [bothCases, h, List.mem_pair]
  exact eq_toUpper_or_eq_toLower d

theorem suffix_of_dropIgnoringCase? {name text rest : List Char}
    (h : dropIgnoringCase? name text = some rest) : rest <:+ text := by
  induction name generalizing text with
  | nil =>
    obtain rfl : text = rest := Option.some.inj h
    exact List.suffix_refl _
  | cons n name ih =>
    cases text with
    | nil => cases h
    | cons c text =>
      rw [dropIgnoringCase?] at h
      split at h
      · exact (ih h).trans (List.suffix_cons c text)
      · cases h

/-- Two names at the front of one text are the same in their common length, but
for their case. -/
theorem toUpper_eq_of_dropIgnoringCase? {name name' text rest rest' : List Char}
    (h : dropIgnoringCase? name text = some rest)
    (h' : dropIgnoringCase? name' text = some rest') :
    ∀ pair ∈ name.zip name', pair.1.toUpper = pair.2.toUpper := by
  induction name generalizing name' text with
  | nil => exact nofun
  | cons n name ih =>
    cases name' with
    | nil => exact nofun
    | cons n' name' =>
      cases text with
      | nil => cases h
      | cons c text =>
        rw [dropIgnoringCase?] at h h'
        split at h
        · split at h'
          · rw [List.zip_cons_cons, List.forall_mem_cons]
            exact ⟨‹n.toUpper = c.toUpper›.trans ‹n'.toUpper = c.toUpper›.symm, ih h h'⟩
          · cases h'
        · cases h

end Worksheet.Text
