import Worksheet.Convert
import Worksheet.Proofs.Calendar.Parts
import Worksheet.Proofs.Pattern.Components

/-!
# Fields are read as they were written

A component of a date or a time is written for a moment and read into a field.
What is written has a fixed width or ends where nothing goes on with it, so it
is read to its end and no further, whatever is in front of the next component
(`takeComponent?_append`). The field is then that of the moment (`Fields.fill`).
-/

namespace Worksheet

namespace Pattern.Component

/-- **A component that gives away all of its field**: numbers in two places,
years in four, up to nine digits of a fraction, and literals with a text.
Components that are written as names are left out. -/
def IsPlain : Component → Prop
  | .day count | .month count | .minute count | .hour count | .second count => count = 2
  | .year count => 3 ≤ count
  | .secondFraction digits => 1 ≤ digits ∧ digits ≤ 9
  | .literal text => text ≠ []
  | .amPm _ | .whitespace _ => True

/-- Whether a rest ends a component that is read as far as it goes. Only
fractions and spaces are. -/
def Ends : Component → List Char → Prop
  | .secondFraction _, rest => Text.Stops Char.isDigit rest
  | .whitespace _, rest => Text.Stops (· == ' ') rest
  | _, _ => True

/-- **Which component may follow another.** Spaces or a literal that begins with
no digit may follow a fraction, and any but a literal that begins with a space
may follow spaces. -/
def MayPrecede : Component → Component → Prop
  | .secondFraction _, .whitespace _ => True
  | .secondFraction _, .literal text => ∀ c ∈ text.head?, c.isDigit = false
  | .secondFraction _, _ => False
  | .whitespace _, .literal text => text.head? ≠ some ' '
  | _, _ => True

end Pattern.Component

namespace Read

open Pattern Format

variable {low high : ℕ} {digits rest : List Char}

theorem takeNumber?_append (hdigits : ∀ c ∈ digits, c.isDigit = true)
    (hlength : digits.length = high) (hlow : low ≤ high) (rest : List Char) :
    takeNumber? low high (digits ++ rest) = some (Text.digitsValue digits, rest) := by
  have htaken : ((digits ++ rest).take high).takeWhile Char.isDigit = digits := by
    rw [List.take_left' hlength, List.takeWhile_eq_self_iff.2 hdigits]
  rw [takeNumber?, htaken, if_neg (by omega), List.drop_left' rfl]

theorem takeNumber?_padded {n : ℕ} (h : n < 100) (rest : List Char) :
    takeNumber? 1 2 (padded 2 n ++ rest) = some (n, rest) := by
  rw [padded, if_pos (le_refl 2), takeNumber?_append
    (fun c hc => Text.isDigit_of_mem_ofNatPadded hc)
    (Text.length_ofNatPadded (by decide) h) (by decide), Text.digitsValue_ofNatPadded]

theorem takeNumber?_fourDigitYear {year : ℤ} (hlow : 0 ≤ year) (hhigh : year ≤ 9999)
    (rest : List Char) :
    takeNumber? 4 4 (fourDigitYear year ++ rest) = some (year.toNat, rest) := by
  rw [fourDigitYear, if_neg (by omega), takeNumber?_append
    (fun c hc => Text.isDigit_of_mem_ofNatPadded hc)
    (Text.length_ofNatPadded (by decide) (by omega)) (by decide), Text.digitsValue_ofNatPadded]
  congr 2
  omega

/-- **A fraction is read in nanoseconds**, when its digits are all there are.
`fractionDigits` cuts off what has no place, so the rest of the fraction has to
be zero. -/
theorem takeFraction?_fractionDigits {count nanos : ℕ} (hlow : 1 ≤ count) (hhigh : count ≤ 9)
    (hnanos : nanos < nanosPerSecond) (hdvd : 10 ^ (9 - count) ∣ nanos)
    (hrest : Text.Stops Char.isDigit rest) :
    takeFraction? (fractionDigits count nanos ++ rest) = some (nanos, rest) := by
  let digits := Text.ofNatPadded count (nanos / 10 ^ (9 - count))
  have hwritten : fractionDigits count nanos = digits := by
    rw [fractionDigits, min_eq_left hhigh, if_neg (by omega), Nat.mod_eq_of_lt hnanos]
  have hfits : nanos / 10 ^ (9 - count) < 10 ^ count := by
    refine Nat.div_lt_of_lt_mul (hnanos.trans_le (le_of_eq ?_))
    rw [← pow_add, Nat.sub_add_cancel hhigh]
    rfl
  have hlength : digits.length = count := Text.length_ofNatPadded hlow hfits
  have hrun : Text.takeRun Char.isDigit (digits ++ rest) = (digits, rest) :=
    Text.takeRun_append_of_all (fun c hc => Text.isDigit_of_mem_ofNatPadded hc) hrest
  have hsome : digits.isEmpty = false :=
    List.isEmpty_eq_false_iff.2 (List.ne_nil_of_length_pos (by omega))
  rw [hwritten, takeFraction?, hrun]
  dsimp only
  rw [hsome, List.take_of_length_le (by omega), hlength, Text.digitsValue_ofNatPadded,
    Nat.div_mul_cancel hdvd]
  rfl

theorem dropIgnoringCase?_append (text rest : List Char) :
    Text.dropIgnoringCase? text (text ++ rest) = some rest := by
  induction text with
  | nil => rfl
  | cons c text ih => rw [List.cons_append, Text.dropIgnoringCase?, if_pos rfl, ih]

/-- **The mark of a half of the day is read in either case and length**,
whichever of them the marker of the pattern asks for. -/
theorem takeComponent?_halfOfDay (marker : List Char) (afternoon : Bool) (fields : Fields)
    (rest : List Char) :
    takeComponent? .standard (.amPm marker) fields
        (halfOfDay Locale.standard.dates marker afternoon ++ rest)
      = some ({ fields with afternoon := some afternoon }, rest) := by
  rw [takeComponent?, halfOfDay, halfMark, halfMark]
  by_cases hshort : Text.byteLength marker ≤ 3 <;>
    cases hlower : marker.head?.any Char.isLower <;> cases afternoon <;>
      simp only [hshort, if_true, if_false] <;> rfl

/-! ## One component

The clock is shown with twelve or with twenty-four hours for the whole pattern,
and reading back gives the hour on that clock. So `Fields.fill` is told which
of the two it is. -/

/-- The hour as it is written, with twelve hours in each half of the day or not.
Twelve comes first in each half. -/
def clockHour (twelveHours : Bool) (hour : ℕ) : ℕ :=
  if twelveHours then if hour % 12 = 0 then 12 else hour % 12 else hour

theorem clockHour_lt (twelveHours : Bool) (time : TimeOfDay) :
    clockHour twelveHours time.hour < 100 := by
  have hseconds : time.seconds < 86400 := time.seconds_lt
  unfold clockHour TimeOfDay.hour
  split_ifs <;> omega

/-- **The fields after a component has been read** that was written for a
moment. Spaces and literals leave them as they are. -/
def Fields.fill (twelveHours : Bool) (moment : DateTime) (fields : Fields) : Component → Fields
  | .day _ => { fields with day := some moment.date.day }
  | .month _ => { fields with month := some moment.date.month }
  | .year _ => { fields with year := some moment.date.year }
  | .hour _ => { fields with hour := clockHour twelveHours moment.time.hour }
  | .minute _ => { fields with minute := moment.time.minute }
  | .second _ => { fields with second := moment.time.second }
  | .secondFraction _ => { fields with nanos := moment.time.nanos }
  | .amPm _ => { fields with afternoon := some (decide (12 ≤ moment.time.hour)) }
  | .whitespace _ | .literal _ => fields

/-- **A moment that can be written to the last digit**: its year has four
digits, and it is no leap second. -/
structure Plain (moment : DateTime) : Prop where
  year_nonneg : 0 ≤ moment.date.year
  year_le : moment.date.year ≤ 9999
  nanos_lt : moment.time.nanos < nanosPerSecond

/-- **A component is read as it was written.** One case for each kind of
component; those without a fixed width need to know what follows
(`Component.Ends`). -/
theorem takeComponent?_append {moment : DateTime} (hmoment : Plain moment) {component : Component}
    (hplain : component.IsPlain)
    (hnanos : ∀ digits, component = .secondFraction digits →
      10 ^ (9 - digits) ∣ moment.time.nanos)
    (hspaces : ∀ text, component = .whitespace text → text ≠ [] ∧ ∀ c ∈ text, c = ' ')
    (hrest : component.Ends rest) (twelveHours : Bool) (fields : Fields) :
    takeComponent? .standard component fields
        (componentText .standard twelveHours moment component ++ rest)
      = some (fields.fill twelveHours moment component, rest) := by
  have hday := moment.date.day_le
  have hmonth := moment.date.month_le
  have hseconds := moment.time.seconds_lt
  cases component with
  | day count =>
    obtain rfl : count = 2 := hplain
    rw [takeComponent?, if_pos (le_refl 2), componentText, if_neg (by decide), if_pos (.inr rfl),
      takeNumber?_padded (by omega)]
    rfl
  | month count =>
    obtain rfl : count = 2 := hplain
    rw [takeComponent?, if_pos (le_refl 2), componentText, if_pos (.inr rfl),
      takeNumber?_padded (by omega)]
    rfl
  | year count =>
    have hcount : 3 ≤ count := hplain
    rw [takeComponent?, if_neg (by omega), componentText, if_neg (by omega),
      takeNumber?_fourDigitYear hmoment.year_nonneg hmoment.year_le]
    exact congrArg (fun year => some ({ fields with year := some year }, rest))
      (Int.toNat_of_nonneg hmoment.year_nonneg)
  | hour count =>
    obtain rfl : count = 2 := hplain
    -- the number of the hour is read as it stands; the half of the day is added
    -- when the moment is made up
    have hwritten : componentText .standard twelveHours moment (.hour 2)
        = padded 2 (clockHour twelveHours moment.time.hour) := rfl
    rw [takeComponent?, hwritten, takeNumber?_padded (clockHour_lt _ moment.time)]
    rfl
  | minute count =>
    obtain rfl : count = 2 := hplain
    have hminute : moment.time.minute < 100 := by unfold TimeOfDay.minute; omega
    rw [takeComponent?, componentText, takeNumber?_padded hminute]
    rfl
  | second count =>
    obtain rfl : count = 2 := hplain
    have hsecond : moment.time.second < 100 := by unfold TimeOfDay.second; omega
    rw [takeComponent?, componentText, takeNumber?_padded hsecond]
    rfl
  | secondFraction digits =>
    exact congrArg (Option.map _)
      (takeFraction?_fractionDigits hplain.1 hplain.2 hmoment.nanos_lt (hnanos digits rfl) hrest)
  | amPm marker => exact takeComponent?_halfOfDay marker _ fields rest
  | whitespace text =>
    obtain ⟨hsome, hrun⟩ := hspaces text rfl
    obtain ⟨c, others, rfl⟩ := List.exists_cons_of_ne_nil hsome
    obtain ⟨hc, hothers⟩ := List.forall_mem_cons.1 hrun
    have hdropped : (others ++ rest).dropWhile (· == ' ') = rest := by
      rw [Text.dropWhile_append_of_stops others hrest,
        List.dropWhile_eq_nil_iff.2 fun c hc => beq_iff_eq.2 (hothers c hc), List.nil_append]
    exact (if_pos hc).trans (congrArg (fun rest => some (fields, rest)) hdropped)
  | literal text =>
    exact congrArg (Option.map (fields, ·)) (dropIgnoringCase?_append text rest)

/-! ## One component after the other

Only fractions and spaces have no fixed width or text of their own. What
follows them must not be taken for more of them, and that is a condition on
neighbours alone (`ends_of_mayPrecede`). -/

theorem stops_append {p : Char → Bool} {text : List Char} (hsome : text ≠ [])
    (hhead : ∀ c ∈ text.head?, p c = false) (rest : List Char) : Text.Stops p (text ++ rest) := by
  obtain ⟨c, others, rfl⟩ := List.exists_cons_of_ne_nil hsome
  exact Text.stops_cons.2 (hhead c rfl)

theorem stops_ofNatPadded (width n : ℕ) (rest : List Char) :
    Text.Stops (· == ' ') (Text.ofNatPadded width n ++ rest) := by
  refine stops_append (List.append_ne_nil_of_right_ne_nil _ (Text.ofNat_ne_nil n)) ?_ rest
  intro c hc
  have hdigit := Text.isDigit_of_mem_ofNatPadded (List.mem_of_head? hc)
  refine beq_eq_false_iff_ne.2 ?_
  rintro rfl
  cases hdigit

theorem stops_halfOfDay (marker : List Char) (afternoon : Bool) (rest : List Char) :
    Text.Stops (· == ' ') (halfOfDay Locale.standard.dates marker afternoon ++ rest) := by
  rw [halfOfDay]
  by_cases hshort : Text.byteLength marker ≤ 3 <;>
    cases hlower : marker.head?.any Char.isLower <;> cases afternoon <;>
      simp only [hshort, if_true, if_false] <;> rfl

/-- **Spaces end at what follows them**, which is a number, the mark of a half
of the day, or a literal with no space in front. -/
theorem ends_whitespace {text : List Char} {next : Component}
    (h : Component.MayPrecede (.whitespace text) next) (hplain : next.IsPlain)
    (hnext : next.blank? = none) {moment : DateTime} (hmoment : Plain moment)
    (twelveHours : Bool) (rest : List Char) :
    Text.Stops (· == ' ') (componentText .standard twelveHours moment next ++ rest) := by
  cases next with
  | day count | month count | hour count | minute count | second count =>
    obtain rfl : count = 2 := hplain
    exact stops_ofNatPadded 2 _ rest
  | year count =>
    have hcount : 3 ≤ count := hplain
    have hyear : ¬moment.date.year < 0 := not_lt.2 hmoment.year_nonneg
    rw [componentText, if_neg (by omega), fourDigitYear, if_neg hyear]
    exact stops_ofNatPadded 4 _ rest
  | secondFraction digits => rfl
  | amPm marker => exact stops_halfOfDay marker _ rest
  | whitespace => cases hnext
  | literal literal =>
    refine stops_append hplain (fun c hc => beq_eq_false_iff_ne.2 ?_) rest
    rintro rfl
    exact h hc

/-- **A component ends where the next one begins.** This is what `MayPrecede` is
for. -/
theorem ends_of_mayPrecede {component next : Component} (h : component.MayPrecede next)
    (hplain : next.IsPlain)
    (hspaces : ∀ text ∈ next.blank?, text ≠ [] ∧ ∀ c ∈ text, c = ' ')
    (hapart : component.blank? = none ∨ next.blank? = none) {moment : DateTime}
    (hmoment : Plain moment) (twelveHours : Bool) (rest : List Char) :
    component.Ends (componentText .standard twelveHours moment next ++ rest) := by
  cases component with
  | secondFraction =>
    cases next with
    | whitespace text =>
      obtain ⟨hsome, hrun⟩ := hspaces text rfl
      refine stops_append hsome (fun c hc => ?_) rest
      rw [hrun c (List.mem_of_head? hc)]
      rfl
    | literal text => exact stops_append hplain h rest
    | _ => exact h.elim
  | whitespace =>
    exact ends_whitespace h hplain (hapart.resolve_left nofun) hmoment twelveHours rest
  | _ => trivial

/-- **Components are read as they were written**, one after the other, by
induction on the list. The fields at the end are what `Fields.fill` makes of the
moment. -/
theorem takeComponents?_momentText {moment : DateTime} (hmoment : Plain moment)
    {components : List Component} (hplain : ∀ component ∈ components, component.IsPlain)
    (hnanos : ∀ digits, .secondFraction digits ∈ components →
      10 ^ (9 - digits) ∣ moment.time.nanos)
    (hprecede : components.IsChain Component.MayPrecede)
    (hspaces : Component.Spaced (components.map Component.blank?)) (twelveHours : Bool)
    (fields : Fields) :
    takeComponents? .standard components fields
        (components.flatMap (componentText .standard twelveHours moment))
      = some (components.foldl (Fields.fill twelveHours moment) fields, []) := by
  induction components generalizing fields with
  | nil => rfl
  | cons component components ih =>
    obtain ⟨hcomponent, hcomponents⟩ := List.forall_mem_cons.1 hplain
    obtain ⟨hnext, hprecede⟩ := List.isChain_cons.1 hprecede
    have hends : component.Ends
        (components.flatMap (componentText .standard twelveHours moment)) := by
      cases components with
      | nil => cases component <;> trivial
      | cons next others =>
        rw [List.flatMap_cons]
        refine ends_of_mayPrecede (hnext next rfl) (List.forall_mem_cons.1 hcomponents).1
          (fun text htext => ?_) ((List.isChain_cons.1 hspaces.apart).1 _ rfl) hmoment _ _
        exact hspaces.texts text (List.mem_cons_of_mem _ (List.mem_cons.2 (.inl htext.symm)))
    rw [List.flatMap_cons, takeComponents?, takeComponent?_append hmoment hcomponent
      (fun digits h => hnanos digits (h ▸ List.mem_cons_self))
      (fun text h => hspaces.texts text (h ▸ List.mem_cons_self)) hends]
    exact ih hcomponents (fun digits h => hnanos digits (List.mem_cons_of_mem _ h)) hprecede
      hspaces.tail _

end Read

end Worksheet
