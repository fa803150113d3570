import Worksheet.Proofs.Read.Offsets

/-!
# Numbers advance

A section may consist of steps that find nothing, and still a number is at least
one character: what counts is not the steps but the digits. A step collects no
more digits than it takes from the text (`Step.digits_take?`), and without a
digit there is no number, so a digit is among what was taken
(`NumberReader.taken_of_readFront?`).

Numbers are the only lexemes whose extent a pattern decides. So the scanner of
formulas goes forward by at least one character at a time whatever that pattern
is (`ScansTo.length_le`), and comes to the end of the text or to something that
is no lexeme (`exists_scansTo_ends`).
-/

namespace Worksheet.Read

open Pattern Format Text

/-! ## Digits

The measure of a step is the number of digits in the text that is left. Steps
that find nothing leave it as it is, those that find digits lower it by as many
as they collect, and without a digit there is no number. -/

/-- How many digits there are in a text. It is what a section has to use up, as
steps alone need not take anything. -/
def countDigits (text : List Char) : ℕ :=
  text.countP Char.isDigit

variable {signs : NumberSigns} {collected collected' : Collected} {whole text rest : List Char}
  {mode : Mode} {value : Float}

theorem countDigits_le_of_suffix (h : rest <:+ text) : countDigits rest ≤ countDigits text :=
  h.sublist.countP_le

theorem countDigits_cons_of_isDigit {c : Char} (h : c.isDigit = true) :
    countDigits (c :: rest) = countDigits rest + 1 :=
  List.countP_cons_of_pos h

theorem digits_takeDigits (separator : Option Char) (started : Bool) (text : List Char) :
    (takeDigits separator started text).1.length
        + countDigits (takeDigits separator started text).2 ≤ countDigits text := by
  fun_induction takeDigits separator started text with
  | case1 => exact Nat.le_refl _
  | case2 started c rest hc digits after heq ih =>
    rw [heq] at ih
    rw [countDigits_cons_of_isDigit hc, List.length_cons]
    dsimp only at ih ⊢
    omega
  | case3 started c rest hc hseparator ih =>
    exact ih.trans (countDigits_le_of_suffix (List.suffix_cons c rest))
  | case4 => exact (Nat.zero_add _).le

theorem digits_takePlace (signs : NumberSigns) (grouping : Bool) (placeholder : Placeholder)
    (zone : Zone) (isLast : Bool) (collected : Collected) (text : List Char) :
    (takePlace signs grouping placeholder zone isLast collected text).1.size
        + countDigits (takePlace signs grouping placeholder zone isLast collected text).2
      ≤ collected.size + countDigits text := by
  unfold takePlace
  split
  · generalize (if grouping && decide (zone = .integer) then some signs.groupSeparator else none)
      = separator
    have hdigits := digits_takeDigits separator (!collected.integer.isEmpty) text
    have hadd := size_addDigits collected zone
      (takeDigits separator (!collected.integer.isEmpty) text).1
    dsimp only
    omega
  · split
    · rename_i c rest
      have hadd := size_addDigits collected zone [c]
      rw [List.length_singleton] at hadd
      split
      · rename_i hc
        rw [countDigits_cons_of_isDigit hc]
        dsimp only
        omega
      · split
        · exact Nat.add_le_add_left (countDigits_le_of_suffix (List.suffix_cons c rest)) _
        · exact Nat.le_refl _
    · exact Nat.le_refl _

theorem Step.size_eq_of_take? {grouping : Bool} {step : Step}
    (hstep : ∀ placeholder zone isLast, step ≠ .digit placeholder zone isLast)
    (h : step.take? signs grouping collected text = some (collected', rest)) :
    collected'.size = collected.size := by
  cases step with
  | digit placeholder zone isLast => exact absurd rfl (hstep placeholder zone isLast)
  | decimalPoint | exponent | percent =>
    simp only [take?] at h
    grind [Collected.size]
  | whitespace =>
    obtain ⟨rfl, -⟩ := Prod.mk.inj (Option.some.inj h)
    rfl
  | currency | literal =>
    obtain ⟨after, -, heq⟩ := Option.map_eq_some_iff.1 h
    obtain ⟨rfl, -⟩ := Prod.mk.inj heq
    rfl

/-- **A step collects no more digits than it takes.** The inequality is
preserved from step to step, so that it holds of `takeSteps?`
(`digits_takeSteps?`). -/
theorem Step.digits_take? {grouping : Bool} {step : Step}
    (h : step.take? signs grouping collected text = some (collected', rest)) :
    collected'.size + countDigits rest ≤ collected.size + countDigits text := by
  cases step with
  | digit placeholder zone isLast =>
    simp only [take?] at h
    split at h
    · obtain ⟨rfl, rfl⟩ := Prod.mk.inj (Option.some.inj h)
      exact Nat.le_refl _
    · split at h
      · have hsign := size_takeSign signs collected text
        have hsuffix := countDigits_le_of_suffix (collected.suffix_takeSign signs text)
        have hplace := digits_takePlace signs grouping placeholder zone isLast
          (collected.takeSign signs text).1 (collected.takeSign signs text).2
        rw [Option.some.inj h] at hplace
        dsimp only at hplace
        omega
      · have hplace := digits_takePlace signs grouping placeholder zone isLast
          collected text
        rwa [Option.some.inj h] at hplace
  | decimalPoint | exponent | percent | whitespace | currency | literal =>
    rw [Step.size_eq_of_take? (fun _ _ _ heq => by cases heq) h]
    exact Nat.add_le_add_left (countDigits_le_of_suffix (Step.suffix_of_take? h)) _

theorem digits_takeSteps? {grouping : Bool} {steps : List Step}
    (h : takeSteps? signs grouping steps collected text = some (collected', rest)) :
    collected'.size + countDigits rest ≤ collected.size + countDigits text := by
  induction steps generalizing collected text with
  | nil =>
    obtain ⟨rfl, rfl⟩ := Prod.mk.inj (Option.some.inj h)
    exact Nat.le_refl _
  | cons step steps ih =>
    rw [takeSteps?] at h
    split at h
    · rename_i hstep
      exact (ih h).trans (Step.digits_take? hstep)
    · cases h

/-- There is no number without a digit: `Collected.value?` refuses to make one. -/
theorem Collected.size_pos {scale : ℕ} (h : collected.value? scale = some value) :
    0 < collected.size := by
  rw [Nat.pos_iff_ne_zero]
  intro hzero
  obtain ⟨hinteger, hfraction⟩ := Nat.add_eq_zero_iff.1 hzero
  rw [value?, List.length_eq_zero_iff.1 hinteger, List.length_eq_zero_iff.1 hfraction] at h
  cases h

theorem NumberCandidate.taken_of_read? {candidate : NumberCandidate}
    (h : candidate.read? signs mode text = some (value, rest)) :
    countDigits rest < countDigits text ∧ isComplete mode rest = true := by
  simp only [read?] at h
  split at h
  · cases h
  · rename_i collected after hsteps
    split at h
    · rename_i hcomplete
      obtain ⟨number, hnumber, heq⟩ := Option.map_eq_some_iff.1 h
      obtain ⟨-, rfl⟩ := Prod.mk.inj heq
      have hsize := size_takeSign signs (.start mode) text
      have hsuffix := countDigits_le_of_suffix
        (Collected.suffix_takeSign signs (.start mode) text)
      have hdigits := digits_takeSteps? hsteps
      have hpos := Collected.size_pos hnumber
      have hstart : (Collected.start mode).size = 0 := rfl
      exact ⟨by omega, hcomplete⟩
    · cases h

/-- **A number has a digit**, and something that may follow it comes next. -/
theorem NumberReader.taken_of_readFront? {reader : NumberReader}
    (h : reader.readFront? signs mode text = some (value, rest)) :
    ∃ taken, text = taken ++ rest ∧ (∃ c ∈ taken, c.isDigit = true) ∧
      NumberCandidate.isComplete mode rest = true := by
  obtain ⟨candidate, -, hread⟩ := List.exists_of_findSome?_eq_some h
  obtain ⟨hdigits, hcomplete⟩ := NumberCandidate.taken_of_read? hread
  obtain ⟨taken, rfl⟩ := suffix_of_readFront? h
  rw [countDigits, countDigits, List.countP_append] at hdigits
  exact ⟨taken, rfl, List.countP_pos_iff.1 (by omega), hcomplete⟩

/-- **A number read at an offset** ends behind it and within the text, at a
boundary. `StandsAt` says of an offset which part of the text is in front of it
and which behind. -/
theorem NumberReader.taken_of_readAt? {reader : NumberReader} {start stop : ℕ}
    (hstart : StandsAt whole start text)
    (h : reader.readAt? signs mode whole start = some (value, stop)) :
    start < stop ∧ ∃ taken rest, text = taken ++ rest ∧ StandsAt whole stop rest ∧
      (∃ c ∈ taken, c.isDigit = true) ∧ NumberCandidate.isComplete mode rest = true := by
  rw [readAt?, show fromByte? start whole = some text from hstart] at h
  obtain ⟨⟨number, rest⟩, hread, heq⟩ := Option.map_eq_some_iff.1 h
  obtain ⟨-, rfl⟩ := Prod.mk.inj heq
  obtain ⟨taken, rfl, ⟨c, hc, hdigit⟩, hcomplete⟩ := taken_of_readFront? hread
  rw [hstart.position_append_eq]
  refine ⟨?_, taken, rest, rfl, hstart.append, ⟨c, hc, hdigit⟩, hcomplete⟩
  have hlength := length_le_byteLength taken
  have hpos := List.length_pos_of_mem hc
  omega

end Worksheet.Read

namespace Worksheet.Formula

open Read Text

/-! ## Lexemes

Every other lexeme takes its first character, so each step of the scanner makes
the rest shorter and it comes to an end. -/

/-- **So many lexemes are scanned** from a text and leave a rest of it. Nothing
is said of whether the scanner could go on. -/
inductive ScansTo (reader : Reader) : ℕ → List Char → List Char → Prop
  | none (text : List Char) : ScansTo reader 0 text text
  | more {count : ℕ} {first : Char} {back after rest : List Char} {kind : LeafKind} :
      scan reader first back = .ok (kind, after) → ScansTo reader count after rest →
        ScansTo reader (count + 1) (first :: back) rest

/-- Where a scanner cannot go on: at the end, or before something that is no
lexeme. -/
def Ends (reader : Reader) (rest : List Char) : Prop :=
  ∀ first back, rest = first :: back → ∃ fault, scan reader first back = .error fault

variable {reader : Reader} {count : ℕ} {text rest : List Char}

/-- **Each lexeme takes a character**, so there are no more of them than
characters. By induction, one `length_scan` for each lexeme. -/
theorem ScansTo.length_le (h : ScansTo reader count text rest) :
    count + rest.length ≤ text.length := by
  induction h with
  | none text => exact (Nat.zero_add _).le
  | more hscan _ ih =>
    have hlength := length_scan hscan
    omega

theorem ScansTo.suffix (h : ScansTo reader count text rest) : rest <:+ text := by
  induction h with
  | none text => exact List.suffix_refl text
  | more hscan _ ih => exact ih.trans (suffix_of_scan hscan)

/-- **The scanner comes to an end**, whatever the pattern for numbers is, by
induction on the length of the text. -/
theorem exists_scansTo_ends (reader : Reader) (text : List Char) :
    ∃ count rest, ScansTo reader count text rest ∧ Ends reader rest := by
  induction hlength : text.length using Nat.strong_induction_on generalizing text with
  | _ length ih =>
    subst hlength
    cases text with
    | nil => exact ⟨0, [], .none [], nofun⟩
    | cons first back =>
      cases hscan : scan reader first back with
      | error fault =>
        refine ⟨0, first :: back, .none _, ?_⟩
        rintro _ _ ⟨⟩
        exact ⟨fault, hscan⟩
      | ok found =>
        obtain ⟨kind, after⟩ := found
        obtain ⟨count, rest, hmore, hends⟩ := ih after.length (length_scan hscan) after rfl
        exact ⟨count + 1, rest, .more hscan hmore, hends⟩

theorem scansTo_of_lexemesFrom {position : ℕ} {opened : List ℕ} {input : List Lexeme}
    (h : lexemesFrom reader position opened text = .ok input) :
    ScansTo reader input.length text [] := by
  fun_induction lexemesFrom reader position opened text generalizing input with
  | case1 position =>
    obtain rfl := Except.ok.inj h
    exact .none []
  | case2 => cases h
  | case3 => cases h
  | case4 => cases h
  | case5 => cases h
  | case6 =>
    rename_i hscan _ _ _ _ hfound ih
    obtain rfl := Except.ok.inj h
    exact .more hscan (ih hfound)

theorem scanWord_ne_number {first : Char} {back after : List Char} {value : Float} :
    scanWord first back ≠ .ok (.number value, after) := by
  intro h
  simp only [scanWord] at h
  split at h
  · cases h
  · split at h
    · cases h
    · split at h
      · cases h
      · split at h <;> cases h

/-- **The numbers of a formula** are read by the pattern for them: of the
branches of `scan` only the one for digits and points comes to a number. -/
theorem readNumber?_of_scan {first : Char} {back after : List Char} {value : Float}
    (h : scan reader first back = .ok (.number value, after)) :
    reader.readNumber? (first :: back) = some (value, after) := by
  unfold scan at h
  split at h
  · split at h <;> cases h
  split at h
  · split at h <;> cases h
  split at h
  · cases h
  split at h
  · split at h
    · rename_i hnumber
      cases h
      exact hnumber
    · cases h
  split at h
  · unfold scanName at h
    split at h
    · split at h
      · exact absurd h scanWord_ne_number
      · cases h
    · exact absurd h scanWord_ne_number
  split at h <;> cases h

/-- **Readers stay within the text and numbers advance.** From an offset between
two characters, or at one of the ends, numbers are read without a cut that
breaks, for any sections, signs and text, and so are dates and times. A number
ends behind where it starts and within the text, between two characters; a digit
is among what it takes; and it ends with the text where it is a whole text, or
before a character that can follow a number in a formula. So the scanner of
formulas takes a digit with each number and a character with each lexeme, stays
between characters, and comes to an end, whatever the pattern for numbers is. -/
theorem reads_within :
    (∀ (numbers : NumberReader) (signs : NumberSigns) (mode : Mode) (whole : List Char) (start : ℕ)
        (text : List Char), StandsAt whole start text →
      numbers.readFrontAt signs mode whole start = .ok (numbers.readAt? signs mode whole start) ∧
        ∀ value stop, numbers.readAt? signs mode whole start = some (value, stop) →
          start < stop ∧ stop ≤ byteLength whole ∧
            ∃ taken rest, text = taken ++ rest ∧ StandsAt whole stop rest ∧
              (∃ c ∈ taken, c.isDigit = true) ∧
              (mode = .value → stop = byteLength whole) ∧
              (mode = .expression → rest.head?.all endsNumber = true)) ∧
    (∀ (moments : MomentReader) (locale : Locale) (whole : List Char),
      moments.readWholeAt locale whole = .ok (moments.read? locale whole) ∧
        ∀ components ∈ moments.candidates, ∀ fields start text, StandsAt whole start text →
          ∃ found, takeComponentsAt locale whole components fields start = .ok found ∧
            ∀ fields' stop, found = some (fields', stop) →
              start ≤ stop ∧ ∃ rest, rest <:+ text ∧ StandsAt whole stop rest) ∧
    ∀ (reader : Reader) (text : List Char),
      (∀ count rest, ScansTo reader count text rest →
        count + rest.length ≤ text.length ∧ StandsAt text (position text rest) rest) ∧
      (∃ count rest, ScansTo reader count text rest ∧ Ends reader rest) ∧
      (∀ input, lexemes reader text = .ok input → ScansTo reader input.length text []) ∧
      ∀ first back value after, text = first :: back →
        scan reader first back = .ok (.number value, after) →
          ∃ taken, text = taken ++ after ∧ (∃ c ∈ taken, c.isDigit = true) ∧
            after.head?.all endsNumber = true := by
  refine ⟨fun numbers signs mode whole start text hstart =>
    ⟨numbers.readFrontAt_eq mode hstart, fun value stop hread => ?_⟩,
    fun moments locale whole => ⟨moments.readWholeAt_eq locale whole,
      fun components _ fields start text hstart =>
        ⟨_, takeComponentsAt_eq components hstart, fun fields' stop hfound => ?_⟩⟩,
    fun reader text => ⟨fun count rest h => ⟨h.length_le, (standsAt_zero text).suffix h.suffix⟩,
      exists_scansTo_ends reader text, fun input h => scansTo_of_lexemesFrom h,
      fun first back value after htext hscan => ?_⟩⟩
  · obtain ⟨hlt, taken, rest, htext, hstop, hdigit, hcomplete⟩ :=
      NumberReader.taken_of_readAt? hstart hread
    -- what a value leaves is nothing, so its end is the end of the text
    have hend := hstop.add_byteLength
    refine ⟨hlt, by omega, taken, rest, htext, hstop, hdigit, ?_, ?_⟩
    · rintro rfl
      rw [List.isEmpty_iff.1 hcomplete] at hend
      exact hend
    · rintro rfl
      exact hcomplete
  · obtain ⟨⟨fields, rest⟩, htake, heq⟩ := Option.map_eq_some_iff.1 hfound
    obtain ⟨-, rfl⟩ := Prod.mk.inj heq
    have hsuffix := suffix_of_takeComponents? htake
    refine ⟨?_, rest, hsuffix, hstart.suffix hsuffix⟩
    obtain ⟨taken, rfl⟩ := hsuffix
    rw [hstart.position_append_eq]
    exact Nat.le_add_right _ _
  · subst htext
    have hread := readNumber?_of_scan hscan
    rw [Reader.readNumber?] at hread
    exact NumberReader.taken_of_readFront? hread

/-- Places that may all stay empty read the digits behind a character of two
bytes, up to the sign, which is where the scanner goes on. -/
theorem reads_within_optionalDigits :
    let places := [Step.whitespace, .digit .optional .integer false, .digit .optional .integer true]
    let numbers : NumberReader := ⟨[⟨places, false, 0⟩]⟩
    let whole := ['é', '1', '2', '+']
    StandsAt whole 2 ['1', '2', '+'] ∧
      ∃ value, numbers.readFrontAt .standard .expression whole 2 = .ok (some (value, 4)) ∧
        (2 < 4 ∧ 4 ≤ byteLength whole ∧ ∃ taken rest, ['1', '2', '+'] = taken ++ rest ∧
          StandsAt whole 4 rest ∧ ∃ c ∈ taken, c.isDigit = true) ∧
        ∃ count rest, ScansTo { Reader.standard with literals := numbers } count whole rest ∧
          Ends { Reader.standard with literals := numbers } rest := by
  intro places numbers whole
  have hstart : StandsAt whole 2 ['1', '2', '+'] := standsAt_iff.2 ⟨['é'], rfl, by decide⟩
  obtain ⟨value, hfront⟩ : ∃ value,
      numbers.readFront? .standard .expression ['1', '2', '+'] = some (value, ['+']) := ⟨_, rfl⟩
  have hread : numbers.readAt? .standard .expression whole 2 = some (value, 4) := by
    rw [NumberReader.readAt?, show fromByte? 2 whole = _ from hstart, Option.bind_some, hfront]
    rfl
  obtain ⟨hnumbers, -, hscanner⟩ := reads_within
  obtain ⟨hcuts, hends⟩ := hnumbers numbers .standard .expression whole 2 _ hstart
  obtain ⟨hlt, hle, taken, rest, htext, hstop, hdigit, -⟩ := hends value 4 hread
  obtain ⟨-, hscanned, -⟩ := hscanner { Reader.standard with literals := numbers } whole
  exact ⟨hstart, value, hread ▸ hcuts, ⟨hlt, hle, taken, rest, htext, hstop, hdigit⟩, hscanned⟩

end Worksheet.Formula
