import Worksheet.Proofs.Format.Printed

/-!
# Reading digits with places

The places of a run take one digit each, and the last one takes all that are
left. So a run of places reads any number of digits, more or fewer than there
are places (`takeSteps?_places`): a place that finds a separator or the end
takes nothing, and only the last one passes over separators. What has to hold
for this is the same before every place (`Ready`), and a digit that is taken
keeps it.
-/

namespace Worksheet

/-- The characters that tell the parts of a number apart. -/
def NumberSigns.marks (signs : NumberSigns) : List Char :=
  [signs.decimalPoint, signs.groupSeparator, signs.negativeSign, signs.positiveSign,
    signs.percentSymbol]

/-- **Signs are distinct** when no two of them are the same and none is a
digit. -/
structure NumberSigns.Distinct (signs : NumberSigns) : Prop where
  nodup : signs.marks.Nodup
  not_digit : ∀ c ∈ signs.marks, c.isDigit = false

theorem NumberSigns.Distinct.ne {signs : NumberSigns} (h : signs.Distinct) :
    (signs.decimalPoint ≠ signs.groupSeparator ∧ signs.decimalPoint ≠ signs.negativeSign
      ∧ signs.decimalPoint ≠ signs.percentSymbol)
    ∧ signs.groupSeparator ≠ signs.negativeSign ∧ signs.groupSeparator ≠ signs.percentSymbol
    ∧ signs.negativeSign ≠ signs.percentSymbol := by
  have hnodup := h.nodup
  simp only [NumberSigns.marks, List.nodup_cons, List.mem_cons, not_or] at hnodup
  tauto

theorem NumberSigns.Distinct.notMem_marks {signs : NumberSigns} (h : signs.Distinct) {c : Char}
    (hc : c.isDigit = true) : c ∉ signs.marks :=
  fun hmem => Bool.false_ne_true ((h.not_digit c hmem).symm.trans hc)

namespace Read

open Pattern Format

/-- The steps of a run of places; the last one is marked. It is what
`NumberCandidate.markLast` makes of them. -/
def placeSteps (zone : Zone) : List Placeholder → List Step
  | [] => []
  | placeholder :: placeholders =>
    .digit placeholder zone placeholders.isEmpty :: placeSteps zone placeholders

/-- The places of a run are marked when the zone ends with them, which is to say
that no place of the zone comes behind. -/
theorem markLast_places {zone : Zone} {steps : List Step}
    (hend : steps.any (NumberCandidate.isDigitOf zone) = false) (placeholders : List Placeholder) :
    NumberCandidate.markLast ((placeholders.map (.digit zone)).map NumberItem.step ++ steps)
      = placeSteps zone placeholders ++ NumberCandidate.markLast steps := by
  induction placeholders with
  | nil => rfl
  | cons placeholder placeholders ih =>
    have hlast : (!((placeholders.map (.digit zone)).map NumberItem.step ++ steps).any
        (NumberCandidate.isDigitOf zone)) = placeholders.isEmpty := by
      rw [List.any_append, hend, Bool.or_false]
      cases placeholders with
      | nil => rfl
      | cons => simp [NumberItem.step, NumberCandidate.isDigitOf]
    rw [List.map_cons, List.map_cons, List.cons_append, placeSteps, ← hlast, List.cons_append, ← ih]
    rfl

variable {signs : NumberSigns} {grouping : Bool} {zone : Zone} {collected : Collected}
  {placeholder : Placeholder} {text rest : List Char}

/-- The separator that is passed over in a zone. There is one before the point
only, and only if the section groups. -/
def separatorIn (signs : NumberSigns) (grouping : Bool) (zone : Zone) : Option Char :=
  if grouping && zone = .integer then some signs.groupSeparator else none

/-- **A place is ready for what is left of the digits.** Its zone is open, and a
digit comes first when there was none yet, so that no sign is looked for. -/
structure Ready (signs : NumberSigns) (grouping : Bool) (zone : Zone) (collected : Collected)
    (text : List Char) : Prop where
  zone_ne : zone ≠ .exponent
  point : zone = .fraction → collected.hasPoint = true
  first : collected.integer = [] → zone = .integer ∧ ∃ c ∈ text.head?, c.isDigit = true
  digits : SeparatedDigits (separatorIn signs grouping zone) (!collected.integer.isEmpty) text

theorem addDigits_nil (collected : Collected) (zone : Zone) :
    collected.addDigits zone [] = collected := by
  cases zone <;> simp [Collected.addDigits]

theorem addDigits_append (collected : Collected) (zone : Zone) (digits more : List Char) :
    (collected.addDigits zone digits).addDigits zone more
      = collected.addDigits zone (digits ++ more) := by
  cases zone <;> simp [Collected.addDigits]

theorem isDigit_of_mem_separatorIn (hsigns : signs.Distinct) :
    ∀ mark ∈ separatorIn signs grouping zone, mark.isDigit = false := by
  intro mark hmark
  rw [separatorIn] at hmark
  split at hmark
  · obtain rfl := Option.some.inj hmark
    exact hsigns.not_digit _ (by simp [NumberSigns.marks])
  · cases hmark

theorem takeSign_of_isDigit (hsigns : signs.Distinct) {c : Char} (hc : c.isDigit = true) :
    collected.takeSign signs (c :: text) = (collected, c :: text) := by
  have hne : ∀ mark ∈ signs.marks, c ≠ mark := fun mark hmark heq =>
    hsigns.notMem_marks hc (heq ▸ hmark)
  have hnegative : c ≠ signs.negativeSign := hne _ (by simp [NumberSigns.marks])
  have hpositive : c ≠ signs.positiveSign := hne _ (by simp [NumberSigns.marks])
  rw [Collected.takeSign, if_neg hnegative, if_neg hpositive, ite_self]

namespace Ready

/-- A place that is ready is open, and finds no sign. -/
theorem take?_eq (h : Ready signs grouping zone collected text) (hsigns : signs.Distinct)
    (placeholder : Placeholder) (isLast : Bool) (rest : List Char) :
    (Step.digit placeholder zone isLast).take? signs grouping collected (text ++ rest)
      = some (takePlace signs grouping placeholder zone isLast collected (text ++ rest)) := by
  have hopen : ¬(zone = .fraction ∧ ¬collected.hasPoint = true) := fun hno => hno.2 (h.point hno.1)
  rw [Step.take?, if_neg hopen]
  split
  · rename_i hstart
    obtain ⟨-, c, hhead, hc⟩ := h.first (List.isEmpty_iff.1 hstart.2)
    obtain ⟨others, rfl⟩ := List.head?_eq_some_iff.1 hhead
    rw [List.cons_append, takeSign_of_isDigit hsigns hc]
  · rfl

/-- The next place is ready when a digit is taken. -/
theorem digit (h : Ready signs grouping zone collected text) (c : Char) {others : List Char}
    (hothers : SeparatedDigits (separatorIn signs grouping zone) true others) :
    Ready signs grouping zone (collected.addDigits zone [c]) others := by
  have hsome : (collected.addDigits zone [c]).integer ≠ [] := by
    cases zone with
    | integer => exact List.append_ne_nil_of_right_ne_nil _ (List.cons_ne_nil c [])
    | fraction => exact fun hnone => Zone.noConfusion (h.first hnone).1
    | exponent => exact absurd rfl h.zone_ne
  refine ⟨h.zone_ne, fun hzone => ?_, fun hnone => absurd hnone hsome, ?_⟩
  · subst hzone
    exact h.point rfl
  · rwa [List.isEmpty_eq_false_iff.2 hsome]

/-- **A place takes a digit or nothing**, and the next place is ready for the
others. It takes nothing before a separator, and at the end. -/
theorem takePlace_one (h : Ready signs grouping zone collected text) (hsigns : signs.Distinct)
    (hspace : placeholder ≠ .space) (hrest : EndsDigits (separatorIn signs grouping zone) rest) :
    ∃ digits others,
      takePlace signs grouping placeholder zone false collected (text ++ rest)
          = (collected.addDigits zone digits, others ++ rest)
        ∧ text.filter Char.isDigit = digits ++ others.filter Char.isDigit
        ∧ Ready signs grouping zone (collected.addDigits zone digits) others := by
  have hnothing : ∀ c more, c.isDigit = false →
      takePlace signs grouping placeholder zone false collected (c :: more)
        = (collected.addDigits zone [], c :: more) := by
    intro c more hc
    rw [takePlace, if_neg Bool.false_ne_true, hc, if_neg Bool.false_ne_true,
      if_neg fun h => hspace h.2, addDigits_nil]
  have hready : Ready signs grouping zone (collected.addDigits zone []) text := by
    rwa [addDigits_nil]
  have hdigits := h.digits
  generalize (!collected.integer.isEmpty) = started at hdigits
  cases hdigits with
  | nil =>
    refine ⟨[], [], ?_, rfl, hready⟩
    cases rest with
    | nil => rw [addDigits_nil]; rfl
    | cons c rest => exact hnothing c rest (hrest c rfl).1
  | digit hdigit hothers =>
    rename_i c others
    refine ⟨[c], others, ?_, List.filter_cons_of_pos hdigit, h.digit c hothers⟩
    rw [List.cons_append, takePlace, if_neg Bool.false_ne_true, if_pos hdigit]
  | mark hseparator hdigit hothers =>
    rename_i mark c others
    exact ⟨[], mark :: c :: others, hnothing mark _
      (isDigit_of_mem_separatorIn hsigns mark hseparator), rfl, hready⟩

/-- **The last place takes all digits** and passes over the separators between
them. -/
theorem takePlace_all (h : Ready signs grouping zone collected text) (hsigns : signs.Distinct)
    (hrest : EndsDigits (separatorIn signs grouping zone) rest) :
    takePlace signs grouping placeholder zone true collected (text ++ rest)
      = (collected.addDigits zone (text.filter Char.isDigit), rest) :=
  congrArg (fun taken : List Char × List Char => (collected.addDigits zone taken.1, taken.2))
    (takeDigits_separated (isDigit_of_mem_separatorIn hsigns) h.digits hrest)

/-- **A run of places takes all digits**, by induction on the places, whether
there are more of them or of the digits. -/
theorem takeSteps?_places {placeholders : List Placeholder} (hsome : placeholders ≠ [])
    (hspace : Placeholder.space ∉ placeholders)
    (h : Ready signs grouping zone collected text) (hsigns : signs.Distinct)
    (hrest : EndsDigits (separatorIn signs grouping zone) rest) :
    takeSteps? signs grouping (placeSteps zone placeholders) collected (text ++ rest)
      = some (collected.addDigits zone (text.filter Char.isDigit), rest) := by
  induction placeholders generalizing collected text with
  | nil => exact absurd rfl hsome
  | cons placeholder placeholders ih =>
    rw [placeSteps, takeSteps?, h.take?_eq hsigns]
    rw [List.mem_cons, not_or] at hspace
    cases placeholders with
    | nil =>
      simp only [List.isEmpty_nil, h.takePlace_all hsigns hrest]
      rfl
    | cons next placeholders =>
      -- what a place leaves is read by the others
      obtain ⟨digits, others, htake, hfilter, hready⟩ :=
        h.takePlace_one hsigns (Ne.symm hspace.1) hrest
      simp only [List.isEmpty_cons, htake]
      rw [ih (List.cons_ne_nil _ _) hspace.2 hready, addDigits_append, hfilter]

end Ready

theorem takeSteps?_percents (collected : Collected) (n : ℕ) :
    takeSteps? signs grouping (List.replicate n .percent) collected
        (List.replicate n signs.percentSymbol)
      = some ({ collected with percent := collected.percent + n }, []) := by
  induction n generalizing collected with
  | zero => rfl
  | succ n ih =>
    rw [List.replicate_succ, List.replicate_succ, takeSteps?, Step.take?, if_pos rfl]
    simp only [ih, Nat.add_assoc, Nat.add_comm 1]

end Read

end Worksheet
