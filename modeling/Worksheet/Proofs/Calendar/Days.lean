import Mathlib.Data.Prod.Lex
import Mathlib.Order.Cover
import Mathlib.Tactic.IntervalCases
import Worksheet.Proofs.Calendar.Parts

/-!
# Days are numbered in their order

Dates are in order by the year, then by the month, then by the day. The day
number is that order (`dayNumber_lt_iff`), it leaves nothing out between the
first date and the last one (`exists_dayNumber_iff`), and from a day number the
date is found again (`ofDayNumber?_eq_some_iff`). So one date follows another
exactly when its number is the next one (`covBy_iff`).

The count is of years that start in March. All of it rests on two facts about
them: the next one starts where one ends (`yearStart_succ`), and a date is
within the year it is counted in (`dayInYear_lt`).
-/

namespace Worksheet.Date

variable {date date' : Date}

/-! ## The order of dates -/

/-- What dates are ordered by: the year, the month and the day, in the order of
dictionaries. -/
def key (date : Date) : ℤ ×ₗ ℕ ×ₗ ℕ :=
  toLex (date.year, toLex (date.month, date.day))

theorem key_injective : Function.Injective key := by
  rintro ⟨year, month, day, _⟩ ⟨year', month', day', _⟩ h
  injection toLex_inj.1 h with hyear hrest
  injection toLex_inj.1 hrest with hmonth hday
  subst hyear hmonth hday
  rfl

/-- Dates are ordered by the year, then by the month, then by the day. -/
instance : LinearOrder Date :=
  LinearOrder.lift' key key_injective

theorem lt_iff : date < date' ↔ date.year < date'.year ∨
    date.year = date'.year ∧ (date.month < date'.month ∨
      date.month = date'.month ∧ date.day < date'.day) := by
  show key date < key date' ↔ _
  rw [key, key, Prod.Lex.toLex_lt_toLex, Prod.Lex.toLex_lt_toLex]

def last : Date :=
  ⟨lastYear, 12, 31, by decide⟩

def first : Date :=
  ⟨firstYear, 1, 1, by decide⟩

theorem le_last (date : Date) : date ≤ last := by
  have hvalid := date.valid
  simp only [isDate, Bool.and_eq_true, decide_eq_true_eq] at hvalid
  have hmonth := date.month_le
  have hday := date.day_le
  rw [← not_lt, lt_iff]
  show ¬(lastYear < date.year ∨
    lastYear = date.year ∧ (12 < date.month ∨ 12 = date.month ∧ 31 < date.day))
  omega

theorem first_le (date : Date) : first ≤ date := by
  have hvalid := date.valid
  simp only [isDate, Bool.and_eq_true, decide_eq_true_eq] at hvalid
  have hmonth := date.month_pos
  have hday := date.day_pos
  rw [← not_lt, lt_iff]
  show ¬(date.year < firstYear ∨
    date.year = firstYear ∧ (date.month < 1 ∨ date.month = 1 ∧ date.day < 1))
  omega

/-! ## Years that start in March

A day number is the start of its year and the place in it (`dayNumber_eq`).
Years are taken apart into cycles of four hundred, centuries, groups of four
and single years by `exists_cycle`, and what is known of their lengths is read
off these parts. -/

/-- The year that starts in March and has a date. January and February belong to
the year before. -/
def marchYear (date : Date) : ℤ :=
  if date.month ≤ 2 then date.year - 1 else date.year

/-- The month of a date, March being 0. So the day that leap years have comes at
the end. -/
def marchMonth (date : Date) : ℕ :=
  if date.month ≤ 2 then date.month + 9 else date.month - 3

/-- The number of days of its year before a date. -/
def dayInYear (date : Date) : ℕ :=
  monthStart date.marchMonth + date.day - 1

theorem dayNumber_eq (date : Date) :
    date.dayNumber = yearStart date.marchYear + date.dayInYear := by
  unfold dayNumber marchYear dayInYear marchMonth
  split_ifs <;> rfl

/-- The number of days of a year that starts in March: what `yearStart` grows
by. -/
def yearLength (year : ℤ) : ℕ :=
  if isLeapYear (year + 1) then 366 else 365

theorem exists_cycle (year : ℤ) : ∃ (cycle : ℤ) (century group rest : ℕ),
    century ≤ 3 ∧ group ≤ 24 ∧ rest ≤ 3 ∧
      year = cycle * 400 + (century * 100 + group * 4 + rest : ℕ) :=
  ⟨year / 400, (year % 400 / 100).toNat, (year % 100 / 4).toNat, (year % 4).toNat,
    by omega, by omega, by omega, by omega⟩

section Cycle

variable {cycle : ℤ} {century group rest : ℕ}

/-- Cycles, centuries, groups and years have the same numbers of days each, but
for the last of them. -/
theorem yearStart_cycle (hcentury : century ≤ 3) (hgroup : group ≤ 24) (hrest : rest ≤ 3) :
    yearStart (cycle * 400 + (century * 100 + group * 4 + rest : ℕ))
      = cycle * 146097 + (century * 36524 + group * 1461 + rest * 365 : ℕ) := by
  unfold yearStart
  omega

/-- The last year of a group has a day more, but for the last group of the first
centuries. -/
theorem yearLength_cycle (hcentury : century ≤ 3) (hgroup : group ≤ 24) (hrest : rest ≤ 3) :
    yearLength (cycle * 400 + (century * 100 + group * 4 + rest : ℕ))
      = if rest = 3 ∧ (group = 24 → century = 3) then 366 else 365 := by
  unfold yearLength isLeapYear
  refine if_congr ?_ rfl rfl
  simp only [Bool.and_eq_true, Bool.or_eq_true, beq_iff_eq, bne_iff_ne]
  omega

end Cycle

/-- **A year starts where the one before it ends.** By the place of the year in
its cycle. -/
theorem yearStart_succ (year : ℤ) : yearStart (year + 1) = yearStart year + yearLength year := by
  obtain ⟨cycle, century, group, rest, hcentury, hgroup, hrest, rfl⟩ := exists_cycle year
  rw [yearLength_cycle hcentury hgroup hrest, yearStart_cycle hcentury hgroup hrest]
  unfold yearStart
  split_ifs <;> omega

theorem yearStart_mono {year year' : ℤ} (h : year ≤ year') : yearStart year ≤ yearStart year' := by
  unfold yearStart
  omega

/-- The days of the years before some year are the days before it. -/
theorem yearStart_add_lt_iff {year year' : ℤ} {day : ℕ} (hday : day < yearLength year) :
    yearStart year + day < yearStart year' ↔ year < year' := by
  constructor
  · intro h
    by_contra hle
    have hstart := yearStart_mono (not_lt.1 hle)
    omega
  · intro h
    have hend := yearStart_succ year
    have hstart := yearStart_mono (Int.add_one_le_of_lt h)
    omega

theorem yearLength_bounds (year : ℤ) : 365 ≤ yearLength year ∧ yearLength year ≤ 366 := by
  unfold yearLength
  split_ifs <;> omega

theorem day_le_monthLength (date : Date) : date.day ≤ monthLength date.year date.month := by
  have hvalid := date.valid
  simp only [isDate, Bool.and_eq_true, decide_eq_true_eq] at hvalid
  exact hvalid.2

theorem marchMonth_le (date : Date) : date.marchMonth ≤ 11 := by
  have hlast := date.month_le
  unfold marchMonth
  split_ifs <;> omega

def ofMarchMonth (month : ℕ) : ℕ :=
  if month < 10 then month + 3 else month - 9

theorem ofMarchMonth_marchMonth (date : Date) : ofMarchMonth date.marchMonth = date.month := by
  have hfirst := date.month_pos
  have hlast := date.month_le
  unfold ofMarchMonth marchMonth
  split_ifs <;> omega

/-- A month other than February ends where the next one starts. February is the
last of its year. -/
theorem monthStart_succ (year : ℤ) {month : ℕ} (h : month < 11) :
    monthStart (month + 1) = monthStart month + monthLength year (ofMarchMonth month) := by
  interval_cases month <;> rfl

theorem dayInYear_lt_monthStart (h : date.marchMonth < 11) :
    date.dayInYear < monthStart (date.marchMonth + 1) := by
  have hpos := date.day_pos
  have hday := date.day_le_monthLength
  rw [monthStart_succ date.year h, ofMarchMonth_marchMonth]
  unfold dayInYear
  omega

/-- **A date is within its year**: it is before the next month, or in February. -/
theorem dayInYear_lt (date : Date) : date.dayInYear < yearLength date.marchYear := by
  rcases date.marchMonth_le.lt_or_eq with hlt | hlast
  · have hnext := dayInYear_lt_monthStart hlt
    have hlength := (yearLength_bounds date.marchYear).1
    unfold monthStart at hnext
    omega
  · have hmonth : date.month = 2 := by
      have := date.month_le
      unfold marchMonth at hlast
      split_ifs at hlast <;> omega
    have hday := date.day_le_monthLength
    rw [monthLength, if_pos hmonth] at hday
    unfold dayInYear yearLength marchYear
    rw [hlast, hmonth, if_pos le_rfl, Int.sub_add_cancel, show monthStart 11 = 337 from rfl]
    split_ifs at hday ⊢ <;> omega

/-- Dates are in the order of their years, months and days also when the years
start in March. -/
theorem march_lt_of_lt (h : date < date') : date.marchYear < date'.marchYear ∨
    date.marchYear = date'.marchYear ∧ (date.marchMonth < date'.marchMonth ∨
      date.marchMonth = date'.marchMonth ∧ date.day < date'.day) := by
  have hfirst := date'.month_pos
  have hlast := date.month_le
  rw [lt_iff] at h
  unfold marchYear marchMonth
  split_ifs <;> omega

/-- **Day numbers are in the order of the dates.** A later year starts after all
days of this one, and a later month after all days of this one. -/
theorem dayNumber_lt_of_lt (h : date < date') : date.dayNumber < date'.dayNumber := by
  have hpos := date.day_pos
  rw [dayNumber_eq, dayNumber_eq]
  rcases march_lt_of_lt h with hyear | ⟨hyear, hmonth | ⟨hmonth, hday⟩⟩
  · have hend := (yearStart_add_lt_iff date.dayInYear_lt).2 hyear
    omega
  · have hnext := dayInYear_lt_monthStart (hmonth.trans_le date'.marchMonth_le)
    have hwithin : monthStart (date.marchMonth + 1) ≤ date'.dayInYear := by
      have := date'.day_pos
      unfold dayInYear monthStart
      omega
    rw [hyear]
    omega
  · unfold dayInYear
    rw [hyear, hmonth]
    omega

theorem dayNumber_lt_iff : date.dayNumber < date'.dayNumber ↔ date < date' :=
  StrictMono.lt_iff_lt fun _ _ => dayNumber_lt_of_lt

theorem dayNumber_le_iff : date.dayNumber ≤ date'.dayNumber ↔ date ≤ date' :=
  StrictMono.le_iff_le fun _ _ => dayNumber_lt_of_lt

theorem dayNumber_injective : Function.Injective dayNumber :=
  StrictMono.injective fun _ _ => dayNumber_lt_of_lt

/-! ## The date with a day number

The way back divides. A day number is parted by the lengths of cycles,
centuries, groups and years, each time with at most so many parts
(`min_div_eq`), since the last part of each kind is a day longer; what is left
is the day in the year, and `monthWith` finds its month. -/

theorem ofParts?_eq_some_iff {year : ℤ} {month day : ℕ} :
    ofParts? year month day = some date ↔
      date.year = year ∧ date.month = month ∧ date.day = day := by
  constructor
  · intro h
    unfold ofParts? at h
    split at h
    · cases h
      exact ⟨rfl, rfl, rfl⟩
    · cases h
  · rintro ⟨rfl, rfl, rfl⟩
    exact date.ofParts?_parts

/-- The month that has a day of a year, both counted from March. -/
def monthWith (day : ℕ) : ℕ :=
  (5 * day + 2) / 153

/-- A day is in the month that starts last before it. -/
theorem monthWith_eq_iff {day month : ℕ} :
    monthWith day = month ↔ monthStart month ≤ day ∧ day < monthStart (month + 1) := by
  unfold monthWith monthStart
  omega

def ofMarchYear (year : ℤ) (month : ℕ) : ℤ :=
  if month < 10 then year else year + 1

theorem ofMarchYear_marchYear (date : Date) :
    ofMarchYear date.marchYear date.marchMonth = date.year := by
  have hfirst := date.month_pos
  have hlast := date.month_le
  unfold ofMarchYear marchMonth marchYear
  split_ifs <;> omega

/-- The date on a day of a year that starts in March, when the calendar has it. -/
def ofMarch? (year : ℤ) (day : ℕ) : Option Date :=
  ofParts? (ofMarchYear year (monthWith day)) (ofMarchMonth (monthWith day))
    (day - monthStart (monthWith day) + 1)

theorem monthWith_dayInYear (date : Date) : monthWith date.dayInYear = date.marchMonth := by
  have hpos := date.day_pos
  refine monthWith_eq_iff.2 ⟨by unfold dayInYear; omega, ?_⟩
  rcases date.marchMonth_le.lt_or_eq with hlt | hlast
  · exact dayInYear_lt_monthStart hlt
  · rw [hlast]
    exact date.dayInYear_lt.trans_le ((yearLength_bounds _).2.trans (by decide))

/-- **A date is found again** by its year and its day. -/
theorem ofMarch?_dayInYear (date : Date) :
    ofMarch? date.marchYear date.dayInYear = some date := by
  have hpos := date.day_pos
  unfold ofMarch?
  rw [monthWith_dayInYear, ofMarchYear_marchYear, ofMarchMonth_marchMonth]
  exact ofParts?_eq_some_iff.2 ⟨rfl, rfl, by unfold dayInYear; omega⟩

section March

variable {year : ℤ} {day : ℕ}

theorem monthWith_le (h : day < yearLength year) : monthWith day ≤ 11 := by
  have hlength := (yearLength_bounds year).2
  unfold monthWith
  omega

/-- A date found by its year and its day has them. -/
theorem eq_of_ofMarch? (hday : day < yearLength year) (h : ofMarch? year day = some date) :
    date.marchYear = year ∧ date.dayInYear = day := by
  obtain ⟨hyear, hmonth, hpart⟩ := ofParts?_eq_some_iff.1 h
  have hlast := monthWith_le hday
  have hstart := (monthWith_eq_iff.1 (rfl : monthWith day = _)).1
  unfold ofMarchYear at hyear
  unfold ofMarchMonth at hmonth
  have hmarch : date.marchMonth = monthWith day := by
    unfold marchMonth
    split_ifs at hmonth ⊢ <;> omega
  constructor
  · unfold marchYear
    split_ifs at hyear hmonth ⊢ <;> omega
  · unfold dayInYear
    rw [hmarch, hpart]
    omega

/-- **Every day of a year has a date**, but for the years that the calendar
leaves out, before `firstYear` and after `lastYear`. -/
theorem exists_ofMarch? (hday : day < yearLength year)
    (hfirst : firstYear ≤ ofMarchYear year (monthWith day))
    (hlast : ofMarchYear year (monthWith day) ≤ lastYear) :
    ∃ date, ofMarch? year day = some date := by
  have hmonth := monthWith_le hday
  obtain ⟨hstart, hend⟩ := monthWith_eq_iff.1 (rfl : monthWith day = _)
  have hlength : day - monthStart (monthWith day) + 1
      ≤ monthLength (ofMarchYear year (monthWith day)) (ofMarchMonth (monthWith day)) := by
    rcases hmonth.lt_or_eq with hlt | heq
    · rw [monthStart_succ (ofMarchYear year (monthWith day)) hlt] at hend
      omega
    · rw [heq]
      unfold yearLength at hday
      show _ ≤ if isLeapYear (year + 1) then 29 else 28
      rw [show monthStart 11 = 337 from rfl]
      split_ifs at hday ⊢ <;> omega
  refine ⟨_, dif_pos ?_⟩
  simp only [isDate, Bool.and_eq_true, decide_eq_true_eq]
  refine ⟨⟨⟨⟨⟨hfirst, hlast⟩, ?_⟩, ?_⟩, by omega⟩, hlength⟩
  · unfold ofMarchMonth
    split_ifs <;> omega
  · unfold ofMarchMonth
    split_ifs <;> omega

end March

/-- A count is parted into parts of a size and a rest, which is larger only
after the most parts. -/
theorem exists_parts {size : ℕ} (hpos : 0 < size) (most count : ℕ) :
    ∃ part rest, count = part * size + rest ∧ part ≤ most ∧ (part < most → rest < size) := by
  rcases le_or_gt most (count / size) with hmany | hfew
  · obtain ⟨rest, hrest⟩ := Nat.exists_eq_add_of_le ((Nat.le_div_iff_mul_le hpos).1 hmany)
    exact ⟨most, rest, hrest, le_rfl, fun h => absurd h (lt_irrefl _)⟩
  · exact ⟨count / size, count % size, (Nat.div_add_mod' count size).symm, hfew.le,
      fun _ => Nat.mod_lt count hpos⟩

theorem min_div_eq {size part most rest : ℕ} (hpos : 0 < size) (hmost : part ≤ most)
    (hrest : part < most → rest < size) : min ((part * size + rest) / size) most = part := by
  rw [Nat.mul_comm, Nat.mul_add_div hpos]
  rcases hmost.lt_or_eq with hlt | rfl
  · rw [Nat.div_eq_of_lt (hrest hlt), Nat.add_zero, min_eq_left hmost]
  · exact min_eq_right (Nat.le_add_right _ _)

/-- **A day number is split** into its year and its day, by dividing by the
lengths of cycles, centuries, groups and years one after the other. -/
theorem ofDayNumber?_yearStart {year : ℤ} {day : ℕ} (h : day < yearLength year) :
    ofDayNumber? (yearStart year + day) = ofMarch? year day := by
  obtain ⟨cycle, century, group, rest, hcentury, hgroup, hrest, rfl⟩ := exists_cycle year
  rw [yearLength_cycle hcentury hgroup hrest] at h
  rw [yearStart_cycle hcentury hgroup hrest]
  -- the day's place in its group of years, its century and its cycle: the
  -- numbers the conversion divides out again
  obtain ⟨inGroup, hinGroup⟩ : ∃ inGroup, inGroup = rest * 365 + day := ⟨_, rfl⟩
  obtain ⟨inCentury, hinCentury⟩ : ∃ inCentury, inCentury = group * 1461 + inGroup := ⟨_, rfl⟩
  obtain ⟨inCycle, hinCycle⟩ : ∃ inCycle, inCycle = century * 36524 + inCentury := ⟨_, rfl⟩
  have hlt : inCycle < 146097 := by split_ifs at h <;> omega
  have hsum : cycle * 146097 + (century * 36524 + group * 1461 + rest * 365 : ℕ) + (day : ℤ)
      = cycle * 146097 + inCycle := by omega
  have hcycle : (cycle * 146097 + inCycle) / 146097 = cycle := by omega
  have hrem : ((cycle * 146097 + inCycle) % 146097).toNat = inCycle := by omega
  -- the last day of the cycle falls past three whole centuries, so the quotient
  -- is held at three
  have hcentury' : min (inCycle / 36524) 3 = century := by
    rw [hinCycle]
    exact min_div_eq (by decide) hcentury fun hfew => by split_ifs at h <;> omega
  have hgroup' : inCentury / 1461 = group := by
    split_ifs at h <;> omega
  have hrest' : min (inGroup / 365) 3 = rest := by
    rw [hinGroup]
    exact min_div_eq (by decide) hrest fun hfew => by split_ifs at h <;> omega
  have hcenturies : inCycle - century * 36524 = inCentury := by omega
  have hgroups : inCentury - group * 1461 = inGroup := by omega
  have hday : inGroup - rest * 365 = day := by omega
  rw [hsum]
  unfold ofDayNumber?
  dsimp only
  rw [hcycle, hrem, hcentury', hcenturies, hgroup', hgroups, hrest', hday]
  unfold ofMarch? ofMarchYear ofMarchMonth monthWith
  split_ifs <;> rfl

/-- Every number is that of a day in some year. -/
theorem exists_yearStart (number : ℤ) :
    ∃ (year : ℤ) (day : ℕ), day < yearLength year ∧ number = yearStart year + day := by
  obtain ⟨inCycle, hnumber, hinCycle⟩ : ∃ inCycle : ℕ,
      number = number / 146097 * 146097 + inCycle ∧ inCycle < 146097 :=
    ⟨(number % 146097).toNat, by omega, by omega⟩
  obtain ⟨century, inCentury, hcentury, hcenturies, hinCentury⟩ :=
    exists_parts (by decide : 0 < 36524) 3 inCycle
  obtain ⟨group, inGroup, hgroup, hgroups, hinGroup⟩ :=
    exists_parts (by decide : 0 < 1461) 24 inCentury
  obtain ⟨rest, day, hday, hrest, hinRest⟩ := exists_parts (by decide : 0 < 365) 3 inGroup
  refine ⟨number / 146097 * 400 + (century * 100 + group * 4 + rest : ℕ), day, ?_, ?_⟩
  · rw [yearLength_cycle hcenturies hgroups hrest]
    split_ifs <;> omega
  · rw [yearStart_cycle hcenturies hgroups hrest]
    omega

/-- **The date with a day number** is the one that has it. So reading a day
number undoes `dayNumber` and comes to nothing else. -/
theorem ofDayNumber?_eq_some_iff {number : ℤ} :
    ofDayNumber? number = some date ↔ date.dayNumber = number := by
  constructor
  · obtain ⟨year, day, hday, rfl⟩ := exists_yearStart number
    intro h
    rw [ofDayNumber?_yearStart hday] at h
    obtain ⟨hyear, hpart⟩ := eq_of_ofMarch? hday h
    rw [dayNumber_eq, hyear, hpart]
  · rintro rfl
    rw [dayNumber_eq, ofDayNumber?_yearStart date.dayInYear_lt, ofMarch?_dayInYear]

/-- **The calendar leaves no day out** between its first and its last. -/
theorem exists_dayNumber_iff {number : ℤ} :
    (∃ date : Date, date.dayNumber = number) ↔
      first.dayNumber ≤ number ∧ number ≤ last.dayNumber := by
  constructor
  · rintro ⟨date, rfl⟩
    exact ⟨dayNumber_le_iff.2 date.first_le, dayNumber_le_iff.2 date.le_last⟩
  · obtain ⟨year, day, hday, rfl⟩ := exists_yearStart number
    rintro ⟨hlow, hhigh⟩
    rw [show first.dayNumber = yearStart (firstYear - 1) + 306 from rfl] at hlow
    rw [show last.dayNumber = yearStart lastYear + 305 from rfl] at hhigh
    have hlength := (yearLength_bounds year).2
    have hmonth : monthWith day < 10 ↔ day < 306 := by
      unfold monthWith
      omega
    have hfirst : firstYear - 1 ≤ year :=
      not_lt.1 fun hlt => absurd ((yearStart_add_lt_iff hday).2 hlt) (by omega)
    have hlast : year < lastYear + 1 := by
      rw [← yearStart_add_lt_iff hday]
      rw [show yearStart (lastYear + 1) = yearStart lastYear + 365 from rfl]
      omega
    obtain ⟨date, hdate⟩ : ∃ date, ofMarch? year day = some date := by
      refine exists_ofMarch? hday ?_ ?_ <;> unfold ofMarchYear
      · -- the first two months of the first year are those of the year before
        rcases hfirst.lt_or_eq with hlt | rfl <;> split_ifs <;> omega
      · rcases (Int.lt_add_one_iff.1 hlast).lt_or_eq with hlt | rfl <;> split_ifs <;> omega
    obtain ⟨hyear, hpart⟩ := eq_of_ofMarch? hday hdate
    exact ⟨date, by rw [dayNumber_eq, hyear, hpart]⟩

/-- **One date is the day after another** exactly when its number is the next
one. -/
theorem covBy_iff : date ⋖ date' ↔ date'.dayNumber = date.dayNumber + 1 := by
  constructor
  · rintro ⟨hlt, hnone⟩
    have hnumber := dayNumber_lt_of_lt hlt
    obtain ⟨next, hnext⟩ : ∃ next : Date, next.dayNumber = date.dayNumber + 1 := by
      have hlow := dayNumber_le_iff.2 date.first_le
      have hhigh := dayNumber_le_iff.2 date'.le_last
      exact exists_dayNumber_iff.2 ⟨by omega, by omega⟩
    by_contra hne
    refine hnone (c := next) ?_ ?_
    · exact dayNumber_lt_iff.1 (by omega)
    · exact dayNumber_lt_iff.1 (by omega)
  · intro h
    refine ⟨dayNumber_lt_iff.1 (by omega), fun other hbefore hafter => ?_⟩
    have hlow := dayNumber_lt_of_lt hbefore
    have hhigh := dayNumber_lt_of_lt hafter
    omega

end Worksheet.Date
