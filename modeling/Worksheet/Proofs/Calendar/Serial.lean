import Worksheet.Proofs.Number.Nan
import Worksheet.Calendar.Serial
import Worksheet.Proofs.Calendar.Parts

/-!
# Serials are numbers

The calendar ends long before whole numbers stop being exact as doubles
(`natAbs_ofDate_lt`), so that the serial of a day is finite. The time of day
adds a size to it (`isSize_ofTime`), hence the serial of a moment is a number
(`isNaN_ofDateTime`).
-/

namespace Worksheet

/-- The calendar spans far fewer than a billion days. -/
theorem Date.natAbs_dayNumber_lt (date : Date) : date.dayNumber.natAbs < 10 ^ 9 := by
  have hvalid := date.valid
  simp only [isDate, Bool.and_eq_true, decide_eq_true_eq] at hvalid
  obtain ⟨hfirst, hlast⟩ := hvalid.1.1.1.1
  have hmonth := date.month_le
  have hday := date.day_le
  unfold firstYear at hfirst
  unfold lastYear at hlast
  unfold dayNumber yearStart monthStart
  split <;> (dsimp only; omega)

namespace Serial

/-- **The serial of a date** has at most 53 bits, so that `Number.ofInt` keeps
it exactly. -/
theorem natAbs_ofDate_lt (date : Date) : (ofDate date).natAbs < 2 ^ 53 := by
  have hdays := date.natAbs_dayNumber_lt
  have hepoch := epoch.natAbs_dayNumber_lt
  unfold ofDate
  dsimp only
  split <;> omega

theorem isSize_secondsOf (time : TimeOfDay) : Number.IsSize (secondsOf time) :=
  (Number.isSize_ofNat _).add
    ((Number.isSize_ofNat _).div (by decide) (by decide) (by decide))

/-- **A time of day is a size** as a fraction of the day. -/
theorem isSize_ofTime (time : TimeOfDay) : Number.IsSize (ofTime time) :=
  (isSize_secondsOf time).div (by decide) (by decide) (by decide)

/-- **The serial of a moment is a number**, the sum of a finite one and a size. -/
theorem isNaN_ofDateTime (moment : DateTime) : (ofDateTime moment).isNaN = false :=
  Number.isNaN_add (Number.isFinite_ofInt (natAbs_ofDate_lt moment.date))
    (isSize_ofTime moment.time).isNaN_eq_false

end Serial

end Worksheet
