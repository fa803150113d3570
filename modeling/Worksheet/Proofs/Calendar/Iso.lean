import Worksheet.Calendar.Iso
import Worksheet.Proofs.Calendar.Parts
import Worksheet.Proofs.Text.Digits

/-!
# The interchange form is read back

The text of a date, of a time and of both together is read back as the same
date, time or moment (`Iso.date?_text`, `Iso.time?_text`,
`Iso.dateTime?_textWith`). Numbers are written in a width of at least two
digits, so a reader of up to two of them takes just these; a year outside of
four digits has a sign and is read up to the hyphen.

A leap second is written as the sixtieth of its minute, so it is read back if it
is one: if it goes on past the last second of a minute (`TimeOfDay.IsProper`).
Whatever is read is such a time (`Iso.isProper_of_time?`,
`Iso.isProper_of_dateTime?`).
-/

namespace Worksheet

namespace Iso

variable {digits rest : List Char} {n : ℕ}

/-! ## Numbers

A reader of at most so many digits stops at the first character that is none,
so a number is read whole when it is written in a known width
(`number?_of_length`) or when what follows ends it (`number?_of_stops`). -/

/-- **Digits of a width are read**, whatever follows. -/
theorem number?_of_length {width : ℕ} (hdigits : ∀ c ∈ digits, c.isDigit = true)
    (hlength : digits.length = width) (hwidth : 0 < width) (rest : List Char) :
    number? width (digits ++ rest) = some (Text.digitsValue digits, rest) := by
  have htaken : ((digits ++ rest).take width).takeWhile Char.isDigit = digits := by
    rw [List.take_left' hlength, List.takeWhile_eq_self_iff.2 hdigits]
  have hsome : digits.isEmpty = false :=
    List.isEmpty_eq_false_iff.2 (List.ne_nil_of_length_pos (by omega))
  rw [number?, htaken, hsome, if_neg Bool.false_ne_true, List.drop_left' rfl]

/-- **Digits are read up to what ends them**, within a width that is large
enough. -/
theorem number?_of_stops (width : ℕ) (hdigits : ∀ c ∈ digits, c.isDigit = true)
    (hsome : digits ≠ []) (hwidth : digits.length ≤ width)
    (hrest : Text.Stops Char.isDigit rest) :
    number? width (digits ++ rest) = some (Text.digitsValue digits, rest) := by
  have hstops : Text.Stops Char.isDigit (rest.take (width - digits.length)) := by
    cases width - digits.length with
    | zero => rfl
    | succ n =>
      cases rest with
      | nil => rfl
      | cons c others => exact Text.stops_cons.2 (Text.stops_cons.1 hrest)
  have htaken : ((digits ++ rest).take width).takeWhile Char.isDigit = digits := by
    rw [List.take_append, List.take_of_length_le hwidth,
      Text.takeWhile_append_of_stops digits hstops, List.takeWhile_eq_self_iff.2 hdigits]
  rw [number?, htaken, List.isEmpty_eq_false_iff.2 hsome, if_neg Bool.false_ne_true,
    List.drop_left' rfl]

theorem isBlank_eq_false_of_isDigit {c : Char} (h : c.isDigit = true) :
    Text.isBlank c = false := by
  have hdigit : 48 ≤ c.toNat ∧ c.toNat ≤ 57 := Char.isDigit_iff_toNat.1 h
  simp only [Text.isBlank, Bool.or_eq_false_iff, Bool.and_eq_false_iff, decide_eq_false_iff_not,
    beq_eq_false_iff_ne]
  omega

theorem exists_cons_ofNatPadded (width n : ℕ) :
    ∃ c others, Text.ofNatPadded width n = c :: others ∧ c.isDigit = true := by
  have hsome : Text.ofNatPadded width n ≠ [] :=
    List.append_ne_nil_of_right_ne_nil _ (Text.ofNat_ne_nil n)
  obtain ⟨c, others, hcons⟩ := List.exists_cons_of_ne_nil hsome
  exact ⟨c, others, hcons, Text.isDigit_of_mem_ofNatPadded (hcons ▸ List.mem_cons_self)⟩

theorem dropWhile_isBlank_ofNatPadded (width n : ℕ) (rest : List Char) :
    (Text.ofNatPadded width n ++ rest).dropWhile Text.isBlank
      = Text.ofNatPadded width n ++ rest := by
  obtain ⟨c, others, hcons, hdigit⟩ := exists_cons_ofNatPadded width n
  rw [hcons, List.cons_append,
    List.dropWhile_cons_of_neg (by simp [isBlank_eq_false_of_isDigit hdigit])]

/-- **A number in two places is read back** when it is within its bounds. -/
theorem field?_ofNatPadded {low high : ℕ} (hlow : low ≤ n) (hhigh : n ≤ high) (h : n < 100)
    (rest : List Char) :
    field? low high (Text.ofNatPadded 2 n ++ rest) = some (n, rest) := by
  rw [field?, dropWhile_isBlank_ofNatPadded,
    number?_of_length (fun c hc => Text.isDigit_of_mem_ofNatPadded hc)
      (Text.length_ofNatPadded (by decide) h) (by decide), Text.digitsValue_ofNatPadded]
  exact if_pos ⟨hlow, hhigh⟩

theorem separator?_cons {mark : Char} (h : Text.isBlank mark = false) (rest : List Char) :
    separator? mark (mark :: rest) = some rest := by
  rw [separator?, List.dropWhile_cons_of_neg (by simp [h])]
  exact if_pos rfl

/-! ## Dates -/

theorem year?_of_isDigit {c : Char} (h : c.isDigit = true) (rest : List Char) :
    year? (c :: rest)
      = (number? 4 (c :: rest)).map fun (value, rest) => ((value : Int), rest) := by
  rw [year?, List.dropWhile_cons_of_neg (by simp [isBlank_eq_false_of_isDigit h])]
  split
  · rename_i heq
    obtain ⟨rfl, -⟩ := List.cons.inj heq
    cases h
  · rename_i heq
    obtain ⟨rfl, -⟩ := List.cons.inj heq
    cases h
  · rfl

/-- **A year is read back** before what ends it, in four digits or with a sign
and more. -/
theorem year?_yearText (year : ℤ) (hrest : Text.Stops Char.isDigit rest) :
    year? (Date.yearText year ++ rest) = some (year, rest) := by
  unfold Date.yearText
  split_ifs with hfour hnegative
  · obtain ⟨n, rfl⟩ := Int.eq_ofNat_of_zero_le hfour.1
    have hn : n < 10 ^ 4 := by omega
    obtain ⟨c, others, hcons, hdigit⟩ := exists_cons_ofNatPadded 4 n
    have hread := number?_of_length (fun c hc => Text.isDigit_of_mem_ofNatPadded hc)
      (Text.length_ofNatPadded (by decide) hn) (by decide) rest
    rw [Text.digitsValue_ofNatPadded, hcons] at hread
    rw [Int.toNat_natCast, hcons, List.cons_append, year?_of_isDigit hdigit]
    exact congrArg (Option.map _) hread
  all_goals
    -- a signed year is read to its end, however long it is
    obtain ⟨c, others, hcons, hdigit⟩ := exists_cons_ofNatPadded 4 year.natAbs
    have hread := number?_of_stops (Text.ofNatPadded 4 year.natAbs ++ rest).length
      (fun c hc => Text.isDigit_of_mem_ofNatPadded hc) (hcons ▸ List.cons_ne_nil c others)
      (by simp) hrest
    rw [Text.digitsValue_ofNatPadded] at hread
    refine (congrArg (Option.map _) hread).trans (congrArg (fun year => some (year, rest)) ?_)
    omega

/-- **A date is read back** at the start of a text. -/
theorem datePart?_text (date : Date) (rest : List Char) :
    datePart? (date.text ++ rest) = some (date, rest) := by
  have hmonth := date.month_le
  have hday := date.day_le
  have htext : date.text ++ rest = Date.yearText date.year ++ '-' :: (Text.ofNatPadded 2 date.month
      ++ '-' :: (Text.ofNatPadded 2 date.day ++ rest)) := by
    simp [Date.text]
  rw [htext, datePart?, year?_yearText date.year (Text.stops_cons.2 rfl)]
  simp only [Option.bind_eq_bind, Option.bind_some,
    separator?_cons (show Text.isBlank '-' = false from rfl),
    field?_ofNatPadded date.month_pos hmonth (by omega),
    field?_ofNatPadded date.day_pos hday (by omega), Date.ofParts?_parts]
  rfl

/-- **The text of a date is read back**, whatever its year is. -/
theorem date?_text (date : Date) : date? date.text = some date := by
  have hread := datePart?_text date []
  rw [List.append_nil] at hread
  rw [date?, hread]

/-! ## Times

A time is written with a second from 0 to 60 and a fraction of less than a
second: `exists_text_eq` says which they are, and that `timeOf?` makes the time
of them again. The rest is reading digits in known places. -/

variable {time : TimeOfDay}

theorem minutesPart?_text (time : TimeOfDay) (rest : List Char) :
    minutesPart? (Text.ofNatPadded 2 time.hour ++ ':' :: (Text.ofNatPadded 2 time.minute ++ rest))
      = some ((time.hour, time.minute), rest) := by
  have hhour := time.hour_lt
  have hminute := time.minute_lt
  rw [minutesPart?, field?_ofNatPadded (Nat.zero_le _) (by omega) (by omega)]
  simp only [Option.bind_eq_bind, Option.bind_some,
    separator?_cons (show Text.isBlank ':' = false from rfl),
    field?_ofNatPadded (Nat.zero_le _) (show time.minute ≤ 59 by omega) (by omega)]
  rfl

/-- Digits of a fraction in a width are read in nanoseconds. -/
theorem fraction?_point (width : ℕ) (hpos : 0 < width) (hwidth : width ≤ 9) (h : n < 10 ^ width) :
    fraction? ('.' :: Text.ofNatPadded width n) = some (n * 10 ^ (9 - width), []) := by
  have hlength := Text.length_ofNatPadded hpos h
  have hdigits : ((Text.ofNatPadded width n).take 9).takeWhile Char.isDigit
      = Text.ofNatPadded width n := by
    rw [List.take_of_length_le (by omega),
      List.takeWhile_eq_self_iff.2 fun c hc => Text.isDigit_of_mem_ofNatPadded hc]
  have hsome : (Text.ofNatPadded width n).isEmpty = false :=
    List.isEmpty_eq_false_iff.2 (List.ne_nil_of_length_pos (by omega))
  rw [fraction?, hdigits, hsome, if_neg Bool.false_ne_true, Text.digitsValue_ofNatPadded, hlength,
    List.drop_of_length_le (by omega)]
  rfl

/-- **A fraction is read back**, in however many digits it is written: none,
three, six or nine. -/
theorem fraction?_fractionText {nanos : ℕ} (h : nanos < nanosPerSecond) :
    fraction? (TimeOfDay.fractionText nanos) = some (nanos, []) := by
  have hnanos : nanos < 1000000000 := h
  unfold TimeOfDay.fractionText
  split_ifs with hzero hmillis hmicros
  · rw [hzero]
    rfl
  · rw [fraction?_point 3 (by decide) (by decide) (by omega),
      Nat.div_mul_cancel (Nat.dvd_of_mod_eq_zero hmillis)]
  · rw [fraction?_point 6 (by decide) (by decide) (by omega),
      Nat.div_mul_cancel (Nat.dvd_of_mod_eq_zero hmicros)]
  · rw [fraction?_point 9 (by decide) (by decide) hnanos, Nat.sub_self, Nat.pow_zero, Nat.mul_one]

/-- **Seconds and their fraction are read back**, those of a leap second as
well. -/
theorem secondsPart?_text {second nanos : ℕ} (hsecond : second ≤ 60) (h : nanos < nanosPerSecond) :
    secondsPart? (':' :: (Text.ofNatPadded 2 second ++ TimeOfDay.fractionText nanos))
      = some ((second, nanos), []) := by
  rw [secondsPart?, separator?_cons rfl]
  simp only [Option.bind_eq_bind, Option.bind_some,
    field?_ofNatPadded (Nat.zero_le _) hsecond (by omega), fraction?_fractionText h]
  rfl

/-- The second and the fraction that are written for a time. For a leap second
it is the sixtieth. -/
theorem exists_text_eq (time : TimeOfDay) (hproper : time.IsProper) : ∃ second nanos,
    time.text = Text.ofNatPadded 2 time.hour ++ ':' :: (Text.ofNatPadded 2 time.minute
        ++ ':' :: (Text.ofNatPadded 2 second ++ TimeOfDay.fractionText nanos))
      ∧ second ≤ 60 ∧ nanos < nanosPerSecond
      ∧ timeOf? time.hour time.minute second nanos = some time := by
  have hsecond := time.second_lt
  have hparts := TimeOfDay.ofParts?_parts hproper
  by_cases hleap : nanosPerSecond ≤ time.nanos
  · have hlast : time.second = 59 := hproper.resolve_left (not_lt.2 hleap)
    have hnanos := time.nanos_lt
    refine ⟨60, time.nanos - nanosPerSecond, ?_, le_refl _, by omega, ?_⟩
    · simp [TimeOfDay.text, hleap, hlast]
    · rw [timeOf?, if_pos rfl, Nat.add_sub_cancel' hleap, ← hlast, hparts]
  · refine ⟨time.second, time.nanos, ?_, by omega, not_le.1 hleap, ?_⟩
    · simp [TimeOfDay.text, hleap]
    · rw [timeOf?, if_neg (by omega), hparts]

/-- **The text of a time is read back**, if it is one that a clock shows. -/
theorem time?_text (hproper : time.IsProper) : time? time.text = some time := by
  obtain ⟨second, nanos, htext, hsecond, hnanos, htime⟩ := exists_text_eq time hproper
  rw [htext, time?, minutesPart?_text]
  dsimp only
  rw [secondsPart?_text hsecond hnanos, Option.getD_some]
  exact htime

/-- **The text of a date with a time is read back.** -/
theorem dateTime?_textWith {moment : DateTime} (hproper : moment.time.IsProper) :
    dateTime? (moment.textWith 'T') = some moment := by
  obtain ⟨second, nanos, htext, hsecond, hnanos, htime⟩ := exists_text_eq moment.time hproper
  rw [DateTime.textWith, dateTime?, datePart?_text, htext]
  simp only [Option.bind_eq_bind, Option.bind_some,
    separator?_cons (show Text.isBlank 'T' = false from rfl), minutesPart?_text,
    secondsPart?_text hsecond hnanos, htime]
  rfl

theorem isProper_of_timeOf? {hour minute second nanos : ℕ}
    (h : timeOf? hour minute second nanos = some time) : time.IsProper := by
  unfold timeOf? at h
  split_ifs at h <;> exact TimeOfDay.isProper_of_ofParts? h

/-- **A time that is read is one that a clock shows**, so it can be written and
read again. -/
theorem isProper_of_time? {text : List Char} (h : time? text = some time) : time.IsProper := by
  unfold time? at h
  split at h
  · cases h
  · dsimp only at h
    split_ifs at h
    exact isProper_of_timeOf? h

/-- **A date is read with a time that a clock shows.** -/
theorem isProper_of_dateTime? {text : List Char} {moment : DateTime}
    (h : dateTime? text = some moment) : moment.time.IsProper := by
  simp only [dateTime?, Option.bind_eq_bind, Option.bind_eq_some_iff] at h
  obtain ⟨_, -, _, -, _, -, _, -, time, htime, h⟩ := h
  split_ifs at h
  obtain rfl := Option.some.inj h
  exact isProper_of_timeOf? htime

end Iso

end Worksheet
