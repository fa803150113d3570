import Worksheet.Proofs.Read.Alternatives
import Worksheet.Proofs.Read.Fields

/-!
# Dates and times are read as they were printed

A pattern with one section that shows all fields of its kind prints a date or a
time, and the same pattern reads it back, whatever the order of the fields and
whatever stands between them (`reads_printed_moment`). Every component gives its
field (`foldl_fill`), and the fields make up the date (`date?_eq`) and the time
(`time?_eq`), also when hours are counted in halves of the day.
-/

namespace Worksheet

open Pattern Format Read

/-- What a component shows of a moment. Several components may show the same. -/
inductive MomentField where
  | year
  | month
  | day
  | hour
  | minute
  | second
  | fraction
  | half
  deriving DecidableEq

/-- The field a component shows. Spaces and literals show none. -/
def Pattern.Component.field? : Component → Option MomentField
  | .year _ => some .year
  | .month _ => some .month
  | .day _ => some .day
  | .hour _ => some .hour
  | .minute _ => some .minute
  | .second _ => some .second
  | .secondFraction _ => some .fraction
  | .amPm _ => some .half
  | .whitespace _ | .literal _ => none

namespace Read

namespace MomentKind

/-- The purpose of patterns that print such values. Each has a `parseKind` with
the same sections. -/
def formatKind : MomentKind → Pattern.Kind
  | date => .dateFormat
  | time => .timeFormat
  | dateTime => .dateTimeFormat

def parseKind : MomentKind → Pattern.Kind
  | date => .dateParse
  | time => .timeParse
  | dateTime => .dateTimeParse

/-- The part of a moment that is such a value. -/
def valueOf (kind : MomentKind) (moment : DateTime) : Value :=
  match kind with
  | date => .date moment.date
  | time => .time moment.time
  | dateTime => .dateTime moment

/-- The moment such a value is shown as: a date at midnight, and a time on the
first day of the serials. -/
def shown (kind : MomentKind) (moment : DateTime) : DateTime :=
  match kind with
  | date => ⟨moment.date, .midnight⟩
  | time => ⟨Serial.epoch, moment.time⟩
  | dateTime => moment

def fields : MomentKind → List MomentField
  | date => [.year, .month, .day]
  | time => [.hour, .minute, .second]
  | dateTime => [.year, .month, .day, .hour, .minute, .second]

end MomentKind

def Shows (components : List Component) (field : MomentField) : Prop :=
  ∃ component ∈ components, component.field? = some field

/-- **Components that show all of a value**: each field at least once and to the
last digit, with nothing after a component that could be taken for a part of
it. -/
structure Complete (kind : MomentKind) (components : List Component) : Prop where
  plain : ∀ component ∈ components, component.IsPlain
  fields : ∀ field ∈ kind.fields, Shows components field
  precede : components.IsChain Component.MayPrecede

/-! ## The fields together

Reading fills the fields from left to right, and a field that is shown twice is
filled twice with the same value. Each field is therefore looked at by itself
(`foldl_fill`). -/

variable {twelveHours : Bool} {moment : DateTime} {components : List Component}

/-- **A field is that of the moment when a component shows it**, and else is
what it was. `get` picks the field, and `h` says what each component does to
it. -/
theorem foldl_fill {α : Type} (twelveHours : Bool) (moment : DateTime) (get : Fields → α)
    (field : MomentField) (value : α)
    (h : ∀ fields (component : Component), get (fields.fill twelveHours moment component)
      = if component.field? = some field then value else get fields)
    (components : List Component) (fields : Fields) :
    get (components.foldl (Fields.fill twelveHours moment) fields)
      = if components.any (·.field? = some field) then value else get fields := by
  induction components generalizing fields with
  | nil => rfl
  | cons component components ih =>
    rw [List.foldl_cons, ih, h, List.any_cons]
    by_cases hshown : component.field? = some field
    · simp [hshown]
    · simp [hshown]

theorem date?_eq {fields : Fields} {date : Date} (hyear : fields.year = some date.year)
    (hmonth : fields.month = some date.month) (hday : fields.day = some date.day) :
    fields.date? = some date := by
  rw [Fields.date?, hyear, hmonth, hday]
  exact dif_pos date.valid

/-- **An hour is found from the half of the day** if it was written so, and as
it is if not. -/
theorem hour?_eq {fields : Fields} {time : TimeOfDay}
    (hhour : fields.hour = clockHour twelveHours time.hour)
    (hhalf : fields.afternoon = if twelveHours then some (decide (12 ≤ time.hour)) else none) :
    fields.hour? = some time.hour := by
  have hlt := time.hour_lt
  rw [Fields.hour?, hhour, hhalf, clockHour]
  cases twelveHours with
  | false => rfl
  | true =>
    -- both marks of the day leave an hour from one to twelve
    obtain ⟨hour, hmarked⟩ : ∃ hour, hour = if time.hour % 12 = 0 then 12 else time.hour % 12 :=
      ⟨_, rfl⟩
    have hrange : 1 ≤ hour ∧ hour ≤ 12 ∧ hour % 12 = time.hour % 12 := by
      rw [hmarked]
      split_ifs <;> omega
    simp only [if_true, ← hmarked]
    rw [if_pos ⟨hrange.1, hrange.2.1⟩, hrange.2.2]
    refine congrArg some ?_
    simp only [decide_eq_true_eq]
    split_ifs <;> omega

theorem time?_eq {fields : Fields} {time : TimeOfDay} (hnanos : time.nanos < nanosPerSecond)
    (hhour : fields.hour? = some time.hour) (hminute : fields.minute = time.minute)
    (hsecond : fields.second = time.second) (hfraction : fields.nanos = time.nanos) :
    fields.time? = some time := by
  rw [Fields.time?, hhour, hminute, hsecond, hfraction]
  exact TimeOfDay.ofParts?_parts (.inl hnanos)

theorem any_field?_iff {field : MomentField} :
    components.any (·.field? = some field) = true ↔ Shows components field := by
  rw [List.any_eq_true, Shows]
  simp only [decide_eq_true_eq]

theorem foldl_fill_of_shows {α : Type} (twelveHours : Bool) (moment : DateTime) (get : Fields → α)
    {field : MomentField} (value : α)
    (h : ∀ fields (component : Component), get (fields.fill twelveHours moment component)
      = if component.field? = some field then value else get fields)
    (hshows : Shows components field) (fields : Fields) :
    get (components.foldl (Fields.fill twelveHours moment) fields) = value := by
  rw [foldl_fill twelveHours moment get field value h, if_pos (any_field?_iff.2 hshows)]

/-- **A date is read when all of it is shown**, by its year, month and day. -/
theorem date?_foldl (hyear : Shows components .year) (hmonth : Shows components .month)
    (hday : Shows components .day) :
    (components.foldl (Fields.fill twelveHours moment) .blank).date? = some moment.date :=
  date?_eq
    (foldl_fill_of_shows twelveHours moment (·.year) (some moment.date.year)
      (fun fields component => by cases component <;> rfl) hyear .blank)
    (foldl_fill_of_shows twelveHours moment (·.month) (some moment.date.month)
      (fun fields component => by cases component <;> rfl) hmonth .blank)
    (foldl_fill_of_shows twelveHours moment (·.day) (some moment.date.day)
      (fun fields component => by cases component <;> rfl) hday .blank)

theorem any_isHalfMark (components : List Component) :
    components.any isHalfMark = components.any (·.field? = some .half) := by
  refine congrArg components.any (funext fun component => ?_)
  cases component <;> rfl

/-- **A time is read when all of it is shown**, and a fraction if there is one.
The hour needs its half of the day just when `isHalfMark` made the pattern print
twelve hours. -/
theorem time?_foldl (hhour : Shows components .hour) (hminute : Shows components .minute)
    (hsecond : Shows components .second) (hnanos : moment.time.nanos < nanosPerSecond)
    (hwhole : ¬Shows components .fraction → moment.time.nanos = 0) :
    (components.foldl (Fields.fill (components.any isHalfMark) moment) .blank).time?
      = some moment.time := by
  let marked := components.any isHalfMark
  have hour := foldl_fill_of_shows marked moment (·.hour) (clockHour marked moment.time.hour)
    (fun fields component => by cases component <;> rfl) hhour .blank
  have half := foldl_fill marked moment (·.afternoon) .half (some (decide (12 ≤ moment.time.hour)))
    (fun fields component => by cases component <;> rfl) components .blank
  have fraction := foldl_fill marked moment (·.nanos) .fraction moment.time.nanos
    (fun fields component => by cases component <;> rfl) components .blank
  rw [← any_isHalfMark] at half
  refine time?_eq hnanos (hour?_eq hour half)
    (foldl_fill_of_shows marked moment (·.minute) moment.time.minute
      (fun fields component => by cases component <;> rfl) hminute .blank)
    (foldl_fill_of_shows marked moment (·.second) moment.time.second
      (fun fields component => by cases component <;> rfl) hsecond .blank) ?_
  refine fraction.trans ?_
  split
  · rfl
  · rename_i hnone
    exact (hwhole (mt any_field?_iff.2 hnone)).symm

/-- **The value that is read from the fields of a complete pattern** is the one
that was printed. -/
theorem value?_foldl {kind : MomentKind} (hcomplete : Complete kind components)
    (hmoment : Plain (kind.shown moment))
    (hwhole : ¬Shows components .fraction → (kind.shown moment).time.nanos = 0) :
    kind.value? (components.foldl
        (Fields.fill (components.any isHalfMark) (kind.shown moment)) .blank)
      = some (kind.valueOf moment) := by
  have hfields := hcomplete.fields
  have hnanos := hmoment.nanos_lt
  cases kind with
  | date =>
    simp only [MomentKind.fields, List.forall_mem_cons] at hfields
    exact congrArg (Option.map Value.date) (date?_foldl hfields.1 hfields.2.1 hfields.2.2.1)
  | time =>
    simp only [MomentKind.fields, List.forall_mem_cons] at hfields
    exact congrArg (Option.map Value.time)
      (time?_foldl hfields.1 hfields.2.1 hfields.2.2.1 hnanos hwhole)
  | dateTime =>
    simp only [MomentKind.fields, List.forall_mem_cons] at hfields
    obtain ⟨hyear, hmonth, hday, hhour, hminute, hsecond, -⟩ := hfields
    rw [MomentKind.value?, date?_foldl hyear hmonth hday,
      time?_foldl hhour hminute hsecond hnanos hwhole]
    rfl

/-! ## What a value is shown as

A date is printed as its midnight and a time as a moment of the first day, so
one function prints all three kinds. Being plain is not lost by it. -/

theorem Plain.shown (h : Plain moment) (kind : MomentKind) : Plain (kind.shown moment) := by
  cases kind with
  | date =>
    have hmidnight : TimeOfDay.midnight.nanos < nanosPerSecond := by decide
    exact ⟨h.year_nonneg, h.year_le, hmidnight⟩
  | time =>
    have hepoch : 0 ≤ Serial.epoch.year ∧ Serial.epoch.year ≤ 9999 := by decide
    exact ⟨hepoch.1, hepoch.2, h.nanos_lt⟩
  | dateTime => exact h

theorem MomentKind.nanos_shown (kind : MomentKind) (moment : DateTime) :
    (kind.shown moment).time.nanos = 0
      ∨ (kind.shown moment).time.nanos = moment.time.nanos := by
  cases kind with
  | date => exact .inl rfl
  | time | dateTime => exact .inr rfl

/-! ## The same pattern twice

Formats for writing and for reading are different kinds of pattern with the
same grammar. The texts of both give one tree, and the tree gives the
components. -/

variable {kind : MomentKind} {text : List Char} {colour : Option Colour} {reader : MomentReader}

theorem token_eq_of_alternatives {purpose purpose' : Pattern.Kind} {pattern pattern' : Pattern}
    (halternatives : purpose.alternatives = purpose'.alternatives)
    (h : Pattern.ofText? purpose text = .ok pattern)
    (h' : Pattern.ofText? purpose' text = .ok pattern') : pattern.token = pattern'.token := by
  obtain ⟨-, tokens, hread, tree, htree, -, rfl⟩ := ofText?_eq_ok_iff.1 h
  obtain ⟨-, tokens', hread', tree', htree', -, rfl⟩ := ofText?_eq_ok_iff.1 h'
  rw [halternatives] at hread
  obtain rfl := Except.ok.inj (hread.symm.trans hread')
  exact Except.ok.inj (htree.symm.trans htree')

/-- Where one section is allowed there are no more, as `fault?` counts them. -/
theorem length_sections_le {purpose : Pattern.Kind} {tree : Token}
    (hmost : purpose.maxSections? = some 1) (hfault : fault? purpose tree = none) :
    tree.sections.length ≤ 1 := by
  unfold fault? at hfault
  split at hfault
  · cases hfault
  · dsimp only at hfault
    rw [hmost] at hfault
    dsimp only at hfault
    split at hfault
    · cases hfault
    · rename_i hcount
      exact not_lt.1 hcount

theorem length_sections_of_formatKind {pattern : Pattern}
    (h : Pattern.ofText? kind.formatKind text = .ok pattern) : pattern.sections.length = 1 := by
  obtain ⟨-, tokens, -, tree, -, hfault, rfl⟩ := ofText?_eq_ok_iff.1 h
  have hmost : kind.formatKind.maxSections? = some 1 := by cases kind <;> rfl
  have hsome : tree.sections.length = _ + 1 := length_sectionsFrom none tree.children
  have hlimit := length_sections_le hmost hfault
  show tree.sections.length = 1
  omega

/-- **A text that is both a format and for reading** has one section, which
gives the same components to both. So printing and reading go through the same
list. -/
theorem exists_stands (hformat : Converter.formatterOf? kind.formatKind text
      = .ok (.moment components colour))
    (hparse : Converter.momentReaderOf? kind.parseKind text = .ok reader) :
    ∃ part token, kind.parseKind.alternatives = [part] ∧ Stands kind.parseKind part text token
      ∧ components = Component.ofLeaves (kind = .time) (contentLeaves token)
      ∧ reader = ⟨kind, [components]⟩ := by
  have halternatives : kind.formatKind.alternatives = kind.parseKind.alternatives := by
    cases kind <;> rfl
  obtain ⟨part, hpart⟩ : ∃ part, kind.parseKind.alternatives = [part] := by
    cases kind <;> exact ⟨_, rfl⟩
  obtain ⟨pattern, hpattern, hmoment⟩ : ∃ pattern,
      Pattern.ofText? kind.formatKind text = .ok pattern
        ∧ Formatter.ofPattern? pattern = .ok (.moment components colour) :=
    exists_of_bind_eq_ok hformat
  obtain ⟨other, hother, -⟩ : ∃ other, Pattern.ofText? kind.parseKind text = .ok other
      ∧ MomentReader.ofPattern? other = .ok reader :=
    exists_of_bind_eq_ok hparse
  have htoken := token_eq_of_alternatives halternatives hpattern hother
  -- a pattern to print with has one section, and the pattern to read with is
  -- the same tree
  have hlength : other.sections.length = 1 := by
    rw [Pattern.sections, ← htoken]
    exact length_sections_of_formatKind hpattern
  obtain ⟨token, hstands, pattern', hpattern', hsections⟩ :=
    OneSection.exists_stands hpart ⟨other, hother, hlength⟩
  obtain rfl := Except.ok.inj (hother.symm.trans hpattern')
  have hfirst : pattern.sections = [some token] := by
    rw [Pattern.sections, htoken]
    exact hsections
  have hcomponents : components = Component.ofLeaves (kind = .time) (contentLeaves token) := by
    rw [Formatter.ofPattern?, kind_of_ofText? hpattern, hfirst] at hmoment
    cases kind <;> exact (Formatter.moment.inj (Except.ok.inj hmoment)).1.symm
  have hreader : Converter.momentReaderOf? kind.parseKind text
      = .ok ⟨kind, [token].map fun token =>
        Component.ofLeaves (kind = .time) (contentLeaves token)⟩ :=
    momentReaderOf?_of_sections (by cases kind <;> rfl) hother hsections
  rw [hcomponents]
  exact ⟨part, token, hpart, hstands, rfl, Except.ok.inj (hparse.symm.trans hreader)⟩

/-- **Dates and times are read as they were printed.** A text that is a pattern
for printing and for reading, and whose components show all of a value, prints
every value whose year has four digits and whose fraction it shows, and reads
the value back. -/
theorem reads_printed_moment (kind : MomentKind)
    (hformat : Converter.formatterOf? kind.formatKind text = .ok (.moment components colour))
    (hparse : Converter.momentReaderOf? kind.parseKind text = .ok reader)
    (hcomplete : Complete kind components) {moment : DateTime} (hmoment : Plain moment)
    (hnanos : ∀ digits, .secondFraction digits ∈ components →
      10 ^ (9 - digits) ∣ moment.time.nanos)
    (hwhole : ¬Shows components .fraction → moment.time.nanos = 0) :
    ∃ written, (Formatter.moment components colour).format? .standard (kind.valueOf moment)
        = some ⟨written, colour⟩
      ∧ reader.read? .standard written = some (kind.valueOf moment) := by
  obtain ⟨part, token, hpart, hstands, hcomponents, rfl⟩ := exists_stands hformat hparse
  have hshown : Formatter.momentOf? (kind.valueOf moment) = some (kind.shown moment) := by
    cases kind <;> rfl
  have hplain := hmoment.shown kind
  have hdigits : ∀ digits, .secondFraction digits ∈ components →
      10 ^ (9 - digits) ∣ (kind.shown moment).time.nanos := by
    intro digits hmem
    rcases kind.nanos_shown moment with hzero | hsame
    · exact hzero ▸ Nat.dvd_zero _
    · exact hsame ▸ hnanos digits hmem
  have hfraction : ¬Shows components .fraction → (kind.shown moment).time.nanos = 0 :=
    fun hnone => (kind.nanos_shown moment).elim id fun hsame => hsame.trans (hwhole hnone)
  -- no two runs of blanks meet, so each is read back whole
  have hspaced : Component.Spaced (components.map Component.blank?) := by
    have hparse : kind.parseKind.isParse = true := by cases kind <;> rfl
    have hnumber : kind.parseKind ≠ .numberParse := by cases kind <;> decide
    exact hcomponents ▸ spaced_of_stands hparse hnumber hpart hstands _
  have htaken := takeComponents?_momentText hplain hcomplete.plain hdigits hcomplete.precede
    hspaced (components.any isHalfMark) .blank
  refine ⟨momentText .standard components (kind.shown moment), ?_, ?_⟩
  · have hformat : (Formatter.moment components colour).format? .standard (kind.valueOf moment)
        = (Formatter.momentOf? (kind.valueOf moment)).map fun moment =>
          ⟨momentText .standard components moment, colour⟩ := by
      cases kind <;> rfl
    rw [hformat, hshown]
    rfl
  · rw [MomentReader.read?, List.findSome?_singleton, MomentReader.readBy?, momentText, htaken]
    exact value?_foldl hcomplete hplain hfraction

def momentComponents? : Formatter → Option (List Component × Option Colour)
  | .moment components colour => some (components, colour)
  | _ => none

theorem eq_moment_of_components? {answer : Except PatternError Formatter}
    (h : answer.toOption.bind momentComponents? = some (components, colour)) :
    answer = .ok (.moment components colour) := by
  obtain ⟨formatter, hanswer, hmoment⟩ := Option.bind_eq_some_iff.1 h
  rw [eq_ok_of_toOption hanswer]
  cases formatter with
  | moment =>
    obtain ⟨rfl, rfl⟩ := Prod.mk.inj (Option.some.inj hmoment)
    rfl
  | _ => cases hmoment

/-- A day before its month, a word, and milliseconds before the half of the
day. -/
def dayAndClock : List Component :=
  [.day 2, .literal ['.'], .month 2, .literal ['.'], .year 4, .whitespace [' '],
    .literal "um".toList, .whitespace [' '], .hour 2, .literal [':'], .minute 2, .literal [':'],
    .second 2, .secondFraction 3, .whitespace [' '], .amPm "AM/PM".toList]

def leapDayAfternoon : DateTime :=
  ⟨⟨2024, 2, 29, by decide⟩, ⟨54245, 250000000, by decide, by decide⟩⟩

/-- All of a moment in one pattern, a quarter of a second past 15:04:05 on a
leap day. -/
theorem reads_printed_moment_leapDay :
    let text := "dd.mm.yyyy \"um\" hh:mm:ss.000 AM/PM".toList
    Converter.formatterOf? .dateTimeFormat text = .ok (.moment dayAndClock none)
      ∧ Converter.momentReaderOf? .dateTimeParse text = .ok ⟨.dateTime, [dayAndClock]⟩
      ∧ Complete .dateTime dayAndClock ∧ Plain leapDayAfternoon
      ∧ (∀ digits, .secondFraction digits ∈ dayAndClock →
        10 ^ (9 - digits) ∣ leapDayAfternoon.time.nanos)
      ∧ (¬Shows dayAndClock .fraction → leapDayAfternoon.time.nanos = 0)
      ∧ ∃ written, (Formatter.moment dayAndClock none).format? .standard
          (.dateTime leapDayAfternoon) = some ⟨written, none⟩
        ∧ MomentReader.read? ⟨.dateTime, [dayAndClock]⟩ .standard written
          = some (.dateTime leapDayAfternoon) := by
  intro text
  have hformat : Converter.formatterOf? .dateTimeFormat text = .ok (.moment dayAndClock none) :=
    eq_moment_of_components? (by decide +kernel)
  have hparse : Converter.momentReaderOf? .dateTimeParse text
      = .ok ⟨.dateTime, [dayAndClock]⟩ := eq_ok_of_toOption (by decide +kernel)
  have hcomplete : Complete .dateTime dayAndClock := by
    refine ⟨?_, ?_, ?_⟩
    · simp [dayAndClock, Component.IsPlain]
    · simp [dayAndClock, MomentKind.fields, Shows, Component.field?]
    · simp [dayAndClock, Component.MayPrecede]
  have hplain : Plain leapDayAfternoon := ⟨by decide, by decide, by decide⟩
  have hnanos : ∀ digits, .secondFraction digits ∈ dayAndClock →
      10 ^ (9 - digits) ∣ leapDayAfternoon.time.nanos := by
    intro digits hmem
    obtain rfl : digits = 3 := by simpa [dayAndClock] using hmem
    decide
  have hwhole : ¬Shows dayAndClock .fraction → leapDayAfternoon.time.nanos = 0 :=
    fun h => absurd ⟨.secondFraction 3, by decide, rfl⟩ h
  exact ⟨hformat, hparse, hcomplete, hplain, hnanos, hwhole,
    reads_printed_moment .dateTime hformat hparse hcomplete hplain hnanos hwhole⟩

end Read

end Worksheet
