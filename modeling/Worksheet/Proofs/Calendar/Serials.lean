import Worksheet.Proofs.Calendar.Days
import Worksheet.Proofs.Calendar.Serial
import Worksheet.Proofs.Number.Exact
import Worksheet.Value.Basic

/-!
# Dates and their serials

The serial of a date is a whole number (`serial?_date`), and whole serials are
read as dates (`ofSerial?_ofNat`). On both ways the day that the calendar does
not have is left out, once by the date and once by the serial;
`toDate?_eq_some_iff` says that the two agree, and `dates_and_serials` what
follows for the row of all dates.
-/

namespace Worksheet

open Number

namespace Serial

variable {date date' : Date}

/-! ## The serial of a date -/

def beforePhantomDay : Date :=
  ⟨1900, 2, 28, by decide⟩

theorem afterPhantomDay_dayNumber : afterPhantomDay.dayNumber = epoch.dayNumber + 60 := by
  decide

/-- The serial of a date, by its day number: from the day on that is left out it
is one more. -/
theorem ofDate_eq (date : Date) : ofDate date = date.dayNumber - epoch.dayNumber +
    if date.dayNumber < epoch.dayNumber + 60 then 0 else 1 := by
  rw [← afterPhantomDay_dayNumber]
  unfold ofDate Date.notBefore
  dsimp only
  by_cases h : date.dayNumber < afterPhantomDay.dayNumber
  · rw [if_pos h, decide_eq_false (not_le.2 h), if_neg Bool.false_ne_true, add_zero]
  · rw [if_neg h, decide_eq_true (not_lt.1 h), if_pos rfl]

/-- **Serials are in the order of the dates.** -/
theorem ofDate_lt_of_lt (h : date < date') : ofDate date < ofDate date' := by
  have hnumber := Date.dayNumber_lt_iff.2 h
  rw [ofDate_eq, ofDate_eq]
  split_ifs <;> omega

theorem ofDate_le_of_le (h : date ≤ date') : ofDate date ≤ ofDate date' :=
  StrictMono.monotone (fun _ _ => ofDate_lt_of_lt) h

/-- **The serial of the next day** is the next one, but for the day that is left
out. -/
theorem ofDate_covBy (h : date ⋖ date') :
    if date' = afterPhantomDay then
      date = beforePhantomDay ∧ ofDate date = 59 ∧ ofDate date' = 61
    else ofDate date' = ofDate date + 1 := by
  have hnext := Date.covBy_iff.1 h
  have hphantom := afterPhantomDay_dayNumber
  split_ifs with hafter
  · obtain rfl := hafter
    have hbefore : date = beforePhantomDay := by
      refine Date.dayNumber_injective ?_
      rw [show beforePhantomDay.dayNumber = epoch.dayNumber + 59 by decide]
      omega
    rw [hbefore]
    decide
  · have hne : date'.dayNumber ≠ epoch.dayNumber + 60 := fun heq =>
      hafter (Date.dayNumber_injective (heq.trans hphantom.symm))
    rw [ofDate_eq, ofDate_eq]
    split_ifs <;> omega

/-- **A whole serial is read as the date that has it**, except for 60, which no
date has. -/
theorem toDate?_eq_some_iff {serial : ℤ} (h : serial ≠ 60) :
    toDate? serial = some date ↔ ofDate date = serial := by
  rw [toDate?, if_neg h, Date.addDays?, Date.ofDayNumber?_eq_some_iff, ofDate_eq]
  split_ifs <;> omega

theorem toDate?_sixty : toDate? 60 = some beforePhantomDay :=
  rfl

/-- **The whole numbers up to the last serial** are read as dates, and no
others. -/
theorem exists_toDate?_iff (n : ℕ) :
    (∃ date, toDate? n = some date) ↔ n ≤ ofDate Date.last := by
  by_cases hsixty : n = 60
  · obtain rfl := hsixty
    exact iff_of_true ⟨_, toDate?_sixty⟩ (by decide)
  rw [exists_congr fun date => @toDate?_eq_some_iff date n (by omega)]
  constructor
  · rintro ⟨date, hdate⟩
    exact hdate.ge.trans (ofDate_le_of_le date.le_last)
  · intro h
    have hfirst : Date.first.dayNumber ≤ epoch.dayNumber := by decide
    have hspan : epoch.dayNumber + 60 ≤ Date.last.dayNumber := by decide
    have hlast : ofDate Date.last = Date.last.dayNumber - epoch.dayNumber + 1 := by decide
    obtain ⟨date, hdate⟩ := Date.exists_dayNumber_iff.2
      (show Date.first.dayNumber ≤ epoch.dayNumber + (if n < 60 then (n : ℤ) else n - 1) ∧
        epoch.dayNumber + (if n < 60 then (n : ℤ) else n - 1) ≤ Date.last.dayNumber by
        split_ifs <;> omega)
    refine ⟨date, ?_⟩
    rw [ofDate_eq, hdate]
    split_ifs <;> omega

/-! ## Midnight

A date has the serial of its midnight, so `ofTime_midnight` makes it whole.
Read back, a whole serial has no time of day, as long as it is small enough for
its day to be exact; a larger one is beyond the calendar, whatever day it is
rounded to. -/

theorem ofTime_midnight : ofTime .midnight = 0 := by
  decide +kernel

/-- **The serial of a date is a whole number.** -/
theorem serial?_date (date : Date) :
    (Value.date date).serial? = some (ofInt (ofDate date)) := by
  show some (ofInt (ofDate date) + ofTime .midnight) = _
  rw [ofTime_midnight, ofInt_add_zero (natAbs_ofDate_lt date)]

theorem toDateTime?_ofNat_of_lt {n : ℕ} (h : n < 2 ^ 53) :
    toDateTime? (Float.ofNat n) = (toDate? n).map fun date => ⟨date, .midnight⟩ := by
  have hvalue := represents_ofNat h
  obtain ⟨hnan, hinf⟩ := isNaN_isInf_of_isFinite hvalue.isFinite
  have hdays : toIntBetween (-(2 ^ 63)) (2 ^ 63 - 1) (Float.ofNat n) = n := by
    rw [hvalue.toIntBetween_eq, Nat.floor_natCast]
    omega
  have hfract : fract (Float.ofNat n) = 0 := by
    refine Represents.eq_zero ?_
    have := hvalue.fract
    rwa [Nat.floor_natCast, sub_self] at this
  -- a whole serial has no fraction of a day, so the milliseconds of the time
  -- are zero too
  have hmillis : roundNat ((0 : Float) * 86400000) = 0 := by
    have hrounds := Represents.zero.mul (represents_ofNat (by decide : 86400000 < 2 ^ 53))
    rw [zero_mul] at hrounds
    refine Nat.eq_zero_of_le_zero ?_
    exact (hrounds.represents_of_represents .zero).roundNat_le (by rw [Nat.cast_zero])
  unfold toDateTime?
  rw [hnan, hinf, hdays, hfract, hmillis, decide_eq_false (by
    rw [hvalue.lt_iff .zero]
    exact not_lt.2 (Nat.cast_nonneg n))]
  have hkept : ∀ date : Date, date.addDays? (((0 : ℕ) : ℤ) / 86400000) = some date := fun date =>
    Date.ofDayNumber?_eq_some_iff.2 (add_zero _).symm
  have htime : TimeOfDay.ofSeconds? (0 % 86400000 / 1000) (0 % 1000 * 1000000)
      = some .midnight := rfl
  rw [if_neg (by decide)]
  dsimp only
  cases toDate? n with
  | none => rfl
  | some date =>
    simp only [htime, hkept, Option.bind_eq_bind, Option.bind_some, Option.pure_def,
      Option.map_some]

theorem toDate?_eq_none {serial : ℤ} (h : 2 ^ 52 ≤ serial) : toDate? serial = none := by
  refine Option.eq_none_iff_forall_ne_some.2 fun date hdate => ?_
  have hlast : ofDate Date.last < 2 ^ 52 := by decide
  have hle := ofDate_le_of_le date.le_last
  rw [toDate?_eq_some_iff (by omega)] at hdate
  omega

/-- **A number far out** is read as no moment, without its day being exact any
more. -/
theorem toDateTime?_eq_none {v : Float} {x : ℚ} (h : Represents v x) (hlarge : 2 ^ 52 ≤ x) :
    toDateTime? v = none := by
  have hfloor : 2 ^ 52 ≤ ⌊x⌋₊ := Nat.le_floor (by exact_mod_cast hlarge)
  have hdays : 2 ^ 52 ≤ toIntBetween (-(2 ^ 63)) (2 ^ 63 - 1) v := by
    rw [h.toIntBetween_eq]
    omega
  unfold toDateTime?
  dsimp only
  rw [toDate?_eq_none hdays]
  exact ite_self none

/-- **A whole number is read as a date** just when some date has it. There is no
time of day in it, so `Value.ofSerial?` makes no moment of it. -/
theorem ofSerial?_ofNat (n : ℕ) :
    Value.ofSerial? (Float.ofNat n) = (toDate? n).map Value.date := by
  by_cases hlt : n < 2 ^ 53
  · rw [Value.ofSerial?, toDateTime?_ofNat_of_lt hlt, Option.map_map]
    rfl
  · rw [toDate?_eq_none (by omega)]
    rcases (isSize_ofNat n).finite_or with hfinite | hinfinite
    · have hvalue : Represents (Float.ofNat n) _ := ⟨hfinite, (isSize_ofNat n).isSigned, rfl⟩
      have hlarge : ((2 ^ 52 : ℕ) : ℚ) ≤ n := Nat.cast_le.2 (by omega)
      have hle := (roundsTo_ofNat n).le_of_ge hvalue (represents_ofNat (by decide)) hlarge
      rw [Value.ofSerial?, toDateTime?_eq_none hvalue (by exact_mod_cast hle)]
      rfl
    · rw [hinfinite]
      rfl

/-! ## Dates and serials -/

/-- **Dates and their serials.** The serial of a date is a whole number. Serials
are in the order of the dates, and that of the next day is the next one, except
that from 1900-02-28 to 1900-03-01 they go from 59 to 61. Every date from the
one with the serial 0 on is found again by its serial. The whole numbers that
are read as something are those up to the last serial, and each is the serial of
what it is read as, except for 60, which is read as 1900-02-28. -/
theorem dates_and_serials :
    (∀ date : Date, (Value.date date).serial? = some (ofInt (ofDate date))) ∧
    (∀ date date' : Date, date < date' →
      ofDate date < ofDate date' ∧ ofInt (ofDate date) < ofInt (ofDate date')) ∧
    (∀ date date' : Date, date ⋖ date' →
      if date' = afterPhantomDay then
        date = beforePhantomDay ∧ ofDate date = 59 ∧ ofDate date' = 61
      else ofDate date' = ofDate date + 1) ∧
    (∀ date : Date, epoch ≤ date →
      (Value.date date).serial?.bind Value.ofSerial? = some (.date date)) ∧
    (∀ n : ℕ, (Value.ofSerial? (Float.ofNat n)).isSome = true ↔ n ≤ ofDate Date.last) ∧
    (∀ (n : ℕ) (value : Value), n ≠ 60 → Value.ofSerial? (Float.ofNat n) = some value →
      ∃ date, value = .date date ∧ value.serial? = some (Float.ofNat n)) ∧
    Value.ofSerial? (Float.ofNat 60) = some (.date beforePhantomDay) := by
  refine ⟨serial?_date, fun date date' h => ⟨ofDate_lt_of_lt h, ?_⟩,
    fun date date' => ofDate_covBy, fun date h => ?_, fun n => ?_, fun n value hsixty h => ?_, ?_⟩
  · exact ofInt_lt_ofInt (natAbs_ofDate_lt date) (natAbs_ofDate_lt date') (ofDate_lt_of_lt h)
  · have hfirst : 0 ≤ ofDate date := by
      rw [show (0 : ℤ) = ofDate epoch by decide]
      exact ofDate_le_of_le h
    obtain ⟨n, hn⟩ := Int.eq_ofNat_of_zero_le hfirst
    have hsixty : (n : ℤ) ≠ 60 := by
      rw [← hn, ofDate_eq]
      split_ifs <;> omega
    rw [serial?_date, Option.bind_some, hn, ofInt_natCast, ofSerial?_ofNat,
      (toDate?_eq_some_iff hsixty).2 hn]
    rfl
  · rw [ofSerial?_ofNat, Option.isSome_map, Option.isSome_iff_exists, exists_toDate?_iff]
  · rw [ofSerial?_ofNat, Option.map_eq_some_iff] at h
    obtain ⟨date, hdate, rfl⟩ := h
    refine ⟨date, rfl, ?_⟩
    rw [serial?_date, (toDate?_eq_some_iff (by omega)).1 hdate, ofInt_natCast]
  · rw [ofSerial?_ofNat]
    rfl

/-- The days on both sides of the one that the calendar does not have, and the
serial after it. -/
theorem dates_and_serials_phantom :
    (beforePhantomDay < afterPhantomDay ∧
      ofInt (ofDate beforePhantomDay) < ofInt (ofDate afterPhantomDay)) ∧
    (beforePhantomDay ⋖ afterPhantomDay ∧
      ofDate beforePhantomDay = 59 ∧ ofDate afterPhantomDay = 61) ∧
    (epoch ≤ beforePhantomDay ∧
      (Value.date beforePhantomDay).serial?.bind Value.ofSerial?
        = some (.date beforePhantomDay)) ∧
    (Value.ofSerial? (Float.ofNat 61) = some (.date afterPhantomDay) ∧
      ∃ date, Value.date afterPhantomDay = .date date ∧
        (Value.date afterPhantomDay).serial? = some (Float.ofNat 61)) := by
  have hnext : beforePhantomDay ⋖ afterPhantomDay := Date.covBy_iff.2 (by decide)
  have hepoch : epoch ≤ beforePhantomDay := Date.dayNumber_le_iff.1 (by decide)
  have hread : Value.ofSerial? (Float.ofNat 61) = some (.date afterPhantomDay) := by
    rw [ofSerial?_ofNat, (@toDate?_eq_some_iff afterPhantomDay _ (by decide)).2 (by decide)]
    rfl
  exact ⟨⟨hnext.lt, (dates_and_serials.2.1 _ _ hnext.lt).2⟩,
    ⟨hnext, (dates_and_serials.2.2.1 _ _ hnext).2⟩,
    ⟨hepoch, dates_and_serials.2.2.2.1 _ hepoch⟩,
    ⟨hread, dates_and_serials.2.2.2.2.2.1 61 _ (by decide) hread⟩⟩

end Serial

end Worksheet
