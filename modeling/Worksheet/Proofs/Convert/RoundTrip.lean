import Worksheet.Proofs.Convert.Compiled
import Worksheet.Proofs.Reference.Selections

/-!
# Values are kept by their texts

The standard converter turns a value into a text and the text back into the same
value (`Converter.convert_text_convert`): any text, boolean, error value or
reference, nothing at all, and the dates and times whose years have four digits
and which have no fraction of a second.

What is printed for a date is tried by the first pattern for reading dates,
which is the one it was printed by. A date with a time is tried by one that also
looks for a fraction and finds none (`Read.readBy?_append_fraction`). A time is
tried by two that look for a half of the day, and neither of them reads it
(`Read.readBy?_of_nil`, `Read.readBy?_of_colon`).
-/

namespace Worksheet

open Pattern Format Read

namespace Read

variable {locale : Locale} {components more : List Component} {fields : Fields}

theorem takeComponents?_append (locale : Locale) (components more : List Component)
    (fields : Fields) (text : List Char) :
    takeComponents? locale (components ++ more) fields text
      = (takeComponents? locale components fields text).bind fun taken =>
        takeComponents? locale more taken.1 taken.2 := by
  induction components generalizing fields text with
  | nil => rfl
  | cons component components ih =>
    rw [List.cons_append, takeComponents?, takeComponents?]
    cases takeComponent? locale component fields text with
    | none => rfl
    | some taken => exact ih taken.1 taken.2

/-- **Where nothing is left there is no fraction**, and none is asked for. -/
theorem readBy?_append_fraction {kind : MomentKind} {text : List Char} (digits : ℕ)
    (h : takeComponents? locale components .blank text = some (fields, [])) :
    MomentReader.readBy? kind locale text (components ++ [.secondFraction digits])
      = kind.value? fields := by
  rw [MomentReader.readBy?, takeComponents?_append, h]
  rfl

/-- **No half of the day is found at the end of a text.** -/
theorem readBy?_of_nil {kind : MomentKind} {text : List Char} (blanks : List Char)
    (h : takeComponents? locale components .blank text = some (fields, [])) :
    MomentReader.readBy? kind locale text (components ++ .whitespace blanks :: more) = none := by
  rw [MomentReader.readBy?, takeComponents?_append, h]
  rfl

/-- **No half of the day is found before a colon**, since a space comes before
it. -/
theorem readBy?_of_colon {kind : MomentKind} {text : List Char} (components : List Component)
    (blanks : List Char) {others : List Component} {taken : Fields × List Char}
    (h : takeComponents? locale (components ++ .literal [':'] :: others) .blank text
      = some taken) :
    MomentReader.readBy? kind locale text (components ++ .whitespace blanks :: more) = none := by
  rw [takeComponents?_append] at h
  obtain ⟨⟨fields, rest⟩, hfront, hcolon⟩ := Option.bind_eq_some_iff.1 h
  rw [MomentReader.readBy?, takeComponents?_append, hfront]
  cases rest with
  | nil => rfl
  | cons c rest =>
    by_cases hc : c = ' '
    · subst hc
      cases hcolon
    · rw [Option.bind_some, takeComponents?, takeComponent?, if_neg hc]

/-- **What is printed is taken to its end**, and gives the value that was
printed: `takeComponents?` undoes `momentText`. -/
theorem exists_takeComponents?_momentText {kind : MomentKind} (hcomplete : Complete kind components)
    (hspaced : Component.Spaced (components.map Component.blank?))
    (hfraction : ∀ digits, .secondFraction digits ∉ components) (moment : DateTime)
    (hmoment : Plain (kind.shown moment)) (hwhole : (kind.shown moment).time.nanos = 0) :
    ∃ fields, takeComponents? .standard components .blank
        (momentText .standard components (kind.shown moment)) = some (fields, [])
      ∧ kind.value? fields = some (kind.valueOf moment) :=
  ⟨_, takeComponents?_momentText hmoment hcomplete.plain
    (fun digits hmem => absurd hmem (hfraction digits)) hcomplete.precede hspaced _ _,
    value?_foldl hcomplete hmoment fun _ => hwhole⟩

end Read

namespace Converter

/-! ## Dates and times

The shapes that values are printed in are complete for their kinds, and no two
of their blanks are side by side, so `exists_takeComponents?_momentText`
applies to each. What remains is to show that no shape before it in the list
reads the text. -/

theorem complete_datePieces : Complete .date datePieces where
  plain := by simp [datePieces, Component.IsPlain]
  fields := by simp [datePieces, MomentKind.fields, Shows, Component.field?]
  precede := by simp [datePieces, Component.MayPrecede]

theorem complete_timePieces : Complete .time timePieces where
  plain := by simp [timePieces, Component.IsPlain]
  fields := by simp [timePieces, MomentKind.fields, Shows, Component.field?]
  precede := by simp [timePieces, Component.MayPrecede]

theorem complete_dateTimePieces : Complete .dateTime dateTimePieces where
  plain := by simp [dateTimePieces, datePieces, timePieces, Component.IsPlain]
  fields := by
    simp [dateTimePieces, datePieces, timePieces, MomentKind.fields, Shows, Component.field?]
  precede := by simp [dateTimePieces, datePieces, timePieces, Component.MayPrecede]

theorem spaced_dateTimePieces :
    Component.Spaced (dateTimePieces.map Component.blank?) where
  apart := by simp [dateTimePieces, datePieces, timePieces, Component.blank?]
  texts := by simp [dateTimePieces, datePieces, timePieces, Component.blank?]

theorem spaced_datePieces : Component.Spaced (datePieces.map Component.blank?) where
  apart := by simp [datePieces, Component.blank?]
  texts := by simp [datePieces, Component.blank?]

theorem spaced_timePieces : Component.Spaced (timePieces.map Component.blank?) where
  apart := by simp [timePieces, Component.blank?]
  texts := by simp [timePieces, Component.blank?]

/-- **A date is read as it is printed**, by the first pattern. -/
theorem read?_date {date : Date} (hlow : 0 ≤ date.year) (hhigh : date.year ≤ 9999) :
    standard.read? (standard.format (.date date)).text .date = some (.date date) := by
  have hmidnight : TimeOfDay.midnight.nanos < nanosPerSecond := by decide
  obtain ⟨fields, htaken, hvalue⟩ := exists_takeComponents?_momentText complete_datePieces
    spaced_datePieces (by simp [datePieces]) ⟨date, .midnight⟩ ⟨hlow, hhigh, hmidnight⟩ rfl
  have hformat : (standard.format (.date date)).text
      = momentText .standard datePieces (MomentKind.date.shown ⟨date, .midnight⟩) := by
    rw [format, formatterFor?, dateFormat_standard, locale_standard]
    rfl
  rw [hformat, read?, dateReader_standard, locale_standard, MomentReader.read?,
    List.findSome?_cons, MomentReader.readBy?, htaken]
  simp only [hvalue]
  rfl

/-- **A date with a time is read as it is printed**, when it has no fraction of
a second. -/
theorem read?_dateTime {moment : DateTime} (hlow : 0 ≤ moment.date.year)
    (hhigh : moment.date.year ≤ 9999) (hwhole : moment.time.nanos = 0) :
    standard.read? (standard.format (.dateTime moment)).text .dateTime
      = some (.dateTime moment) := by
  have hnanos : moment.time.nanos < nanosPerSecond := hwhole ▸ by decide
  obtain ⟨fields, htaken, hvalue⟩ := exists_takeComponents?_momentText complete_dateTimePieces
    spaced_dateTimePieces (by simp [dateTimePieces, datePieces, timePieces]) moment
    ⟨hlow, hhigh, hnanos⟩ hwhole
  have hformat : (standard.format (.dateTime moment)).text
      = momentText .standard dateTimePieces (MomentKind.dateTime.shown moment) := by
    rw [format, formatterFor?, dateTimeFormat_standard, locale_standard]
    rfl
  rw [hformat, read?, dateTimeReader_standard, locale_standard, MomentReader.read?,
    List.findSome?_cons, readBy?_append_fraction 3 htaken, hvalue]
  rfl

/-- **A time is found behind those with a half of the day**, which do not read
it. -/
theorem read?_timeReader {text : List Char} {fields : Fields} {value : Value}
    (htaken : takeComponents? .standard timePieces .blank text = some (fields, []))
    (hvalue : MomentKind.time.value? fields = some value) :
    standard.timeReader.read? .standard text = some value := by
  -- an hour is taken alike whether it is asked for in one digit or in two
  have htaken' : takeComponents? .standard
      [.hour 1, .literal [':'], .minute 2, .literal [':'], .second 2] .blank text
        = some (fields, []) := htaken
  have hseconds : MomentReader.readBy? .time .standard text [.hour 1, .literal [':'], .minute 2,
      .literal [':'], .second 2, .whitespace [' '], .amPm "AM/PM".toList] = none :=
    readBy?_of_nil [' '] htaken'
  have hminutes : MomentReader.readBy? .time .standard text [.hour 1, .literal [':'], .minute 2,
      .whitespace [' '], .amPm "AM/PM".toList] = none :=
    readBy?_of_colon [.hour 1, .literal [':'], .minute 2] [' '] htaken'
  rw [timeReader_standard, MomentReader.read?, List.findSome?_cons, hseconds, List.findSome?_cons,
    hminutes, List.findSome?_cons, readBy?_append_fraction 3 htaken, hvalue]

/-- **A time is read as it is printed**, when it has no fraction of a second. -/
theorem read?_time {time : TimeOfDay} (hwhole : time.nanos = 0) :
    standard.read? (standard.format (.time time)).text .time = some (.time time) := by
  have hepoch : 0 ≤ Serial.epoch.year ∧ Serial.epoch.year ≤ 9999 := by decide
  have hnanos : time.nanos < nanosPerSecond := hwhole ▸ by decide
  obtain ⟨fields, htaken, hvalue⟩ := exists_takeComponents?_momentText complete_timePieces
    spaced_timePieces (by simp [timePieces]) ⟨Serial.epoch, time⟩
    ⟨hepoch.1, hepoch.2, hnanos⟩ hwhole
  have hformat : (standard.format (.time time)).text
      = momentText .standard timePieces (MomentKind.time.shown ⟨Serial.epoch, time⟩) := by
    rw [format, formatterFor?, timeFormat_standard, locale_standard]
    rfl
  rw [hformat, read?, locale_standard]
  exact read?_timeReader htaken hvalue

/-! ## By way of a text

`Value.KeptByText` names the values that are meant. Each of them is shown as a
text that is read as it, and a conversion to a text and back is that, since the
two kinds differ. -/

theorem convert_text {converter : Converter} {value : Value} (h : value.kind ≠ .text) :
    converter.convert value .text = .ok (.text (converter.format value).text) := by
  rw [convert, if_neg h]

theorem convert_of_text {converter : Converter} {text : List Char} {kind : ValueKind}
    {value : Value} (h : kind ≠ .text) (hread : converter.read? text kind = some value) :
    converter.convert (.text text) kind = .ok value := by
  have hparse : converter.convert (.text text) kind = converter.parse text kind := by
    rw [convert]
    · exact if_neg (Ne.symm h)
    · exact h
  rw [hparse, parse, hread]

end Converter

/-- **Values that their texts give away**, with what each kind needs for that.
Numbers are not among them: what is printed of a number need not be all of it. -/
inductive Value.KeptByText : Value → Prop
  | text (content : List Char) : KeptByText (.text content)
  | boolean (content : Bool) : KeptByText (.boolean content)
  | error (kind : CellErrorKind) : KeptByText (.error (.ofKind kind))
  | empty : KeptByText .empty
  | cell {target : Cell} (hsheet : target.InSheet) : KeptByText (.selection (.cell target))
  | label (target : Label) : KeptByText (.selection (.label target))
  /-- A range of several cells. -/
  | range {a b : Cell} (ha : a.InSheet) (hb : b.InSheet)
      (hseveral : (CellRange.spanning a b).isSingle = false) :
      KeptByText (.selection (.range (.spanning a b)))
  | date {content : Date} (hlow : 0 ≤ content.year) (hhigh : content.year ≤ 9999) :
      KeptByText (.date content)
  | dateTime {content : DateTime} (hlow : 0 ≤ content.date.year)
      (hhigh : content.date.year ≤ 9999) (hwhole : content.time.nanos = 0) :
      KeptByText (.dateTime content)
  | time {content : TimeOfDay} (hwhole : content.nanos = 0) : KeptByText (.time content)

namespace Converter

/-- What such a value is shown as is read as it. Texts need no reading. -/
theorem read?_format {value : Value} (h : value.KeptByText) (htext : value.kind ≠ .text) :
    standard.read? (standard.format value).text value.kind = some value := by
  cases h with
  | text => exact absurd rfl htext
  | boolean content => cases content <;> rfl
  | error kind => cases kind <;> rfl
  | empty => rfl
  | cell hsheet => exact congrArg (Option.map Value.selection) (Selection.ofText?_cell hsheet)
  | label target => exact congrArg (Option.map Value.selection) (Selection.ofText?_label target)
  | range ha hb hseveral =>
    exact congrArg (Option.map Value.selection) (Selection.ofText?_range ha hb hseveral)
  | date hlow hhigh => exact read?_date hlow hhigh
  | dateTime hlow hhigh hwhole => exact read?_dateTime hlow hhigh hwhole
  | time hwhole => exact read?_time hwhole

/-- **A value that its text gives away is kept by it**: turned into a text and
back into its own kind it is the same value. -/
theorem convert_text_convert {value : Value} (h : value.KeptByText) :
    ∃ content, standard.convert value .text = .ok (.text content)
      ∧ standard.convert (.text content) value.kind = .ok value := by
  by_cases htext : value.kind = .text
  · cases h with
    | text content => exact ⟨content, rfl, rfl⟩
    | _ => cases htext
  · exact ⟨_, convert_text htext, convert_of_text htext (read?_format h htext)⟩

/-- A moment two thousand years ago, when years had fewer digits. -/
theorem convert_text_convert_earlyYear :
    let moment : DateTime := ⟨⟨24, 2, 29, by decide⟩, ⟨54245, 0, by decide, by decide⟩⟩
    (Value.dateTime moment).KeptByText
      ∧ ∃ content, standard.convert (.dateTime moment) .text = .ok (.text content)
        ∧ standard.convert (.text content) .dateTime = .ok (.dateTime moment) := by
  intro moment
  have hkept : (Value.dateTime moment).KeptByText := .dateTime (by decide) (by decide) rfl
  exact ⟨hkept, convert_text_convert hkept⟩

end Converter

end Worksheet
