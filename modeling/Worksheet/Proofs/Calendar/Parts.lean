import Mathlib.Tactic.SplitIfs
import Worksheet.Calendar.TimeOfDay

/-!
# The parts of dates and times

Months, days, hours, minutes and seconds are numbers of two digits, within the
bounds that a calendar and a clock set. A date or a time is made of its parts
again (`Date.ofParts?_parts`, `TimeOfDay.ofParts?_parts`); a leap second is, if
it is one: if it goes on past the last second of a minute
(`TimeOfDay.IsProper`). No other time is made of parts
(`TimeOfDay.isProper_of_ofParts?`).
-/

namespace Worksheet

namespace Date

theorem month_le (date : Date) : date.month ≤ 12 := by
  have hvalid := date.valid
  simp only [isDate, Bool.and_eq_true, decide_eq_true_eq] at hvalid
  exact hvalid.1.1.2

theorem month_pos (date : Date) : 1 ≤ date.month := by
  have hvalid := date.valid
  simp only [isDate, Bool.and_eq_true, decide_eq_true_eq] at hvalid
  exact hvalid.1.1.1.2

theorem day_le (date : Date) : date.day ≤ 31 := by
  have hvalid := date.valid
  simp only [isDate, Bool.and_eq_true, decide_eq_true_eq] at hvalid
  refine Nat.le_trans hvalid.2 ?_
  unfold monthLength
  split_ifs <;> decide

theorem day_pos (date : Date) : 1 ≤ date.day := by
  have hvalid := date.valid
  simp only [isDate, Bool.and_eq_true, decide_eq_true_eq] at hvalid
  exact hvalid.1.2

/-- **A date is made of its parts.** -/
theorem ofParts?_parts (date : Date) : ofParts? date.year date.month date.day = some date :=
  dif_pos date.valid

end Date

namespace TimeOfDay

/-- **A time that a clock shows**: only the last second of a minute goes on past
a whole one. `TimeOfDay` itself allows it of any second. -/
def IsProper (time : TimeOfDay) : Prop :=
  time.nanos < nanosPerSecond ∨ time.second = 59

theorem hour_lt (time : TimeOfDay) : time.hour < 24 := by
  have hseconds : time.seconds < 86400 := time.seconds_lt
  unfold hour
  omega

theorem minute_lt (time : TimeOfDay) : time.minute < 60 := by
  unfold minute
  omega

theorem second_lt (time : TimeOfDay) : time.second < 60 := by
  unfold second
  omega

/-- **A time is made of its parts**, if it is one that a clock shows. -/
theorem ofParts?_parts {time : TimeOfDay} (h : time.IsProper) :
    ofParts? time.hour time.minute time.second time.nanos = some time := by
  have hsum : time.hour * 3600 + time.minute * 60 + time.second = time.seconds := by
    unfold hour minute second
    omega
  rw [ofParts?, if_pos ⟨time.hour_lt, time.minute_lt, time.second_lt, h⟩, hsum]
  exact dif_pos ⟨time.seconds_lt, time.nanos_lt⟩

/-- **A time that is made of parts is one that a clock shows.** -/
theorem isProper_of_ofParts? {hour minute second nanos : Nat} {time : TimeOfDay}
    (h : ofParts? hour minute second nanos = some time) : time.IsProper := by
  unfold ofParts? ofSeconds? at h
  split_ifs at h with hparts
  obtain ⟨-, -, hsecond, hnanos⟩ := hparts
  obtain rfl := Option.some.inj h
  refine hnanos.imp_right fun hlast => ?_
  show (hour * 3600 + minute * 60 + second) % 60 = 59
  omega

end TimeOfDay

end Worksheet
