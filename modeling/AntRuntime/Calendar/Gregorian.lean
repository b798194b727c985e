import Mathlib.Algebra.Order.Group.Nat
import Mathlib.Algebra.Order.Ring.Int
import Mathlib.Logic.Function.Iterate

/-!
# The proleptic Gregorian calendar

Dates and day numbers. Day zero is the first of January 1970; every day has one date, and
the dates follow each other in the order of their numbers. A day of a month comes again
within eight years, and so does a day of the week in a month.
-/

namespace AntRuntime.Calendar

/-- A year with a 29th of February. -/
def IsLeap (year : Int) : Prop :=
  year % 4 = 0 ∧ (year % 100 ≠ 0 ∨ year % 400 = 0)

instance (year : Int) : Decidable (IsLeap year) :=
  inferInstanceAs (Decidable (_ ∧ _))

/-- The length of a month. -/
def daysInMonth (year : Int) (month : Nat) : Nat :=
  if month = 2 then (if IsLeap year then 29 else 28)
  else if month = 4 ∨ month = 6 ∨ month = 9 ∨ month = 11 then 30
  else 31

theorem le_daysInMonth (year : Int) (month : Nat) : 28 ≤ daysInMonth year month := by
  rw [daysInMonth]
  split_ifs <;> omega

/-- The days of a year before a month. -/
def daysBefore (year : Int) : Nat → Nat
  | 0 | 1 => 0
  | month + 2 => daysBefore year (month + 1) + daysInMonth year (month + 1)

/-- The days before a month are those of the months before it. -/
theorem daysBefore_succ (year : Int) (positive : 1 ≤ month) :
    daysBefore year (month + 1) = daysBefore year month + daysInMonth year month := by
  cases month with
  | zero => omega
  | succ month => rfl

/-- Later months have more days before them. -/
theorem daysBefore_mono (year : Int) : Monotone (daysBefore year) := by
  refine monotone_nat_of_le_succ fun month => ?_
  cases month with
  | zero => exact le_refl 0
  | succ month => exact Nat.le_add_right _ _

/-- A year has 365 days, or 366. -/
theorem daysBefore_end (year : Int) : daysBefore year 13 = if IsLeap year then 366 else 365 := by
  by_cases leap : IsLeap year <;> simp [daysBefore, daysInMonth, leap]

/-- The days before a year, up to a constant. -/
def yearStart (year : Int) : Int :=
  365 * (year - 1) + (year - 1) / 4 - (year - 1) / 100 + (year - 1) / 400

/-- A year starts where the one before it ends. -/
theorem yearStart_succ (year : Int) :
    yearStart (year + 1) = yearStart year + (daysBefore year 13 : Nat) := by
  rw [daysBefore_end, yearStart, yearStart]
  split_ifs with leap
  · obtain ⟨fourth, century⟩ := leap
    omega
  · rw [IsLeap] at leap
    omega

/-- Later years do not start earlier. -/
theorem yearStart_mono (le : first ≤ second) :
    yearStart first ≤ yearStart second := by
  refine monotone_int_of_le_succ (fun year => ?_) le
  rw [yearStart_succ]
  omega

/-- A date of the calendar. -/
@[ext]
structure Date where
  year : Int
  month : Nat
  day : Nat
  month_pos : 1 ≤ month
  month_le : month ≤ 12
  day_pos : 1 ≤ day
  day_le : day ≤ daysInMonth year month
  deriving DecidableEq

namespace Date

variable {first second : Date}

/-- The first of January 1970. -/
def epoch : Date :=
  ⟨1970, 1, 1, by decide, by decide, by decide, by decide⟩

/-- The days from the epoch to a date. -/
def dayNumber (date : Date) : Int :=
  yearStart date.year + daysBefore date.year date.month + date.day - 719163

@[simp]
theorem dayNumber_epoch : epoch.dayNumber = 0 := by decide

/-- The next day. -/
def next (date : Date) : Date :=
  if notLast : date.day < daysInMonth date.year date.month then
    ⟨date.year, date.month, date.day + 1, date.month_pos, date.month_le, by omega, notLast⟩
  else if earlier : date.month < 12 then
    ⟨date.year, date.month + 1, 1, by omega, earlier, le_refl 1,
      le_trans (by decide) (le_daysInMonth _ _)⟩
  else
    ⟨date.year + 1, 1, 1, le_refl 1, by decide, le_refl 1,
      le_trans (by decide) (le_daysInMonth _ _)⟩

/-- The day before. -/
def previous (date : Date) : Date :=
  if notFirst : 1 < date.day then
    ⟨date.year, date.month, date.day - 1, date.month_pos, date.month_le, by omega,
      le_trans (Nat.sub_le _ _) date.day_le⟩
  else if later : 1 < date.month then
    ⟨date.year, date.month - 1, daysInMonth date.year (date.month - 1), by omega,
      le_trans (Nat.sub_le _ _) date.month_le, le_trans (by decide) (le_daysInMonth _ _),
      le_refl _⟩
  else
    ⟨date.year - 1, 12, daysInMonth (date.year - 1) 12, by decide, by decide,
      le_trans (by decide) (le_daysInMonth _ _), le_refl _⟩

/-- The next date has the next number. -/
theorem dayNumber_next (date : Date) : date.next.dayNumber = date.dayNumber + 1 := by
  have last := date.day_le
  rw [next]
  split_ifs with notLast earlier
  · simp only [dayNumber]
    omega
  · have month := daysBefore_succ date.year date.month_pos
    simp only [dayNumber]
    omega
  · have december : date.month = 12 := by
      have := date.month_le
      omega
    have month := daysBefore_succ date.year date.month_pos
    have year := yearStart_succ date.year
    rw [december] at month last notLast
    simp only [dayNumber, year, month, december]
    change _ + ((0 : Nat) : Int) + ((1 : Nat) : Int) - 719163 = _
    omega

/-- The date before has the number before. -/
theorem dayNumber_previous (date : Date) : date.previous.dayNumber = date.dayNumber - 1 := by
  have first := date.day_pos
  rw [previous]
  split_ifs with notFirst later
  · simp only [dayNumber]
    omega
  · obtain ⟨month, same⟩ : ∃ month, date.month = month + 1 := ⟨date.month - 1, by omega⟩
    have before := daysBefore_succ date.year (by omega : 1 ≤ month)
    simp only [dayNumber, same, Nat.add_sub_cancel]
    omega
  · have january : date.month = 1 := by
      have := date.month_pos
      omega
    have month := daysBefore_succ (date.year - 1) (by decide : 1 ≤ 12)
    have year := yearStart_succ (date.year - 1)
    rw [Int.sub_add_cancel] at year
    simp only [dayNumber, january, year, month]
    change _ = _ + ((0 : Nat) : Int) + _ - 719163 - 1
    omega

/-- The day of the year, counted from one. -/
theorem dayOfYear_le (date : Date) :
    daysBefore date.year date.month + date.day ≤ daysBefore date.year 13 := by
  calc daysBefore date.year date.month + date.day
      ≤ daysBefore date.year date.month + daysInMonth date.year date.month :=
        Nat.add_le_add_left date.day_le _
    _ = daysBefore date.year (date.month + 1) := (daysBefore_succ _ date.month_pos).symm
    _ ≤ daysBefore date.year 13 :=
        daysBefore_mono _ (Nat.succ_le_succ date.month_le)

/-- A date in an earlier year has the smaller number. -/
theorem dayNumber_lt_of_year_lt (earlier : first.year < second.year) :
    first.dayNumber < second.dayNumber := by
  have inYear := first.dayOfYear_le
  have started := second.day_pos
  have nextYear : yearStart first.year + (daysBefore first.year 13 : Nat) ≤
      yearStart second.year := by
    rw [← yearStart_succ]
    exact yearStart_mono earlier
  simp only [dayNumber]
  omega

/-- A date in an earlier month of the same year has the smaller number. -/
theorem dayNumber_lt_of_month_lt
    (sameYear : first.year = second.year) (earlier : first.month < second.month) :
    first.dayNumber < second.dayNumber := by
  have inMonth := first.day_le
  have started := second.day_pos
  have nextMonth : daysBefore second.year first.month + daysInMonth second.year first.month ≤
      daysBefore second.year second.month := by
    rw [← daysBefore_succ _ first.month_pos]
    exact daysBefore_mono _ earlier
  simp only [dayNumber]
  rw [sameYear] at inMonth ⊢
  omega

/-- Dates are in the order of their days. -/
theorem dayNumber_le_iff (first second : Date) :
    first.dayNumber ≤ second.dayNumber ↔
      first.year < second.year ∨
        (first.year = second.year ∧ first.month < second.month) ∨
        (first.year = second.year ∧ first.month = second.month ∧ first.day ≤ second.day) := by
  rcases lt_trichotomy first.year second.year with earlier | sameYear | later
  · exact iff_of_true (dayNumber_lt_of_year_lt earlier).le (.inl earlier)
  · rcases lt_trichotomy first.month second.month with earlier | sameMonth | later
    · exact iff_of_true (dayNumber_lt_of_month_lt sameYear earlier).le
        (.inr (.inl ⟨sameYear, earlier⟩))
    · simp only [dayNumber, sameYear, sameMonth, true_and]
      omega
    · have := dayNumber_lt_of_month_lt sameYear.symm later
      omega
  · have := dayNumber_lt_of_year_lt later
    omega

/-- A day has one date. -/
theorem dayNumber_injective : Function.Injective dayNumber := by
  intro first second same
  have forward := (dayNumber_le_iff first second).mp same.le
  have backward := (dayNumber_le_iff second first).mp same.ge
  refine Date.ext ?_ ?_ ?_ <;> omega

/-- The date of a day. -/
def ofDayNumber : Int → Date
  | .ofNat days => next^[days] epoch
  | .negSucc days => previous^[days + 1] epoch

/-- Every number is that of the date it stands for. -/
@[simp]
theorem dayNumber_ofDayNumber (day : Int) : (ofDayNumber day).dayNumber = day := by
  have forward : ∀ days : Nat, (next^[days] epoch).dayNumber = days := by
    intro days
    induction days with
    | zero => exact dayNumber_epoch
    | succ days ih =>
      rw [Function.iterate_succ_apply', dayNumber_next, ih]
      rfl
  have backward : ∀ days : Nat, (previous^[days] epoch).dayNumber = -days := by
    intro days
    induction days with
    | zero => exact dayNumber_epoch
    | succ days ih =>
      rw [Function.iterate_succ_apply', dayNumber_previous]
      omega
  cases day with
  | ofNat days => exact forward days
  | negSucc days => exact backward (days + 1)

/-- Every date is the one that its number stands for. -/
@[simp]
theorem ofDayNumber_dayNumber (date : Date) : ofDayNumber date.dayNumber = date :=
  dayNumber_injective (dayNumber_ofDayNumber _)

theorem next_ofDayNumber (day : Int) : (ofDayNumber day).next = ofDayNumber (day + 1) := by
  apply dayNumber_injective
  rw [dayNumber_next, dayNumber_ofDayNumber, dayNumber_ofDayNumber]

/-- The day of the week, from zero for Sunday. -/
def weekday (date : Date) : Nat :=
  ((date.dayNumber + 4) % 7).toNat

/-- A date in the year after that of a day is less than three years away. -/
theorem nextYear_bounds {date : Date} (nextYear : date.year = (ofDayNumber start).year + 1) :
    start ≤ date.dayNumber ∧ date.dayNumber ≤ start + 2922 := by
  have after := @dayNumber_lt_of_year_lt (ofDayNumber start) date (by omega)
  rw [dayNumber_ofDayNumber] at after
  have inYear := date.dayOfYear_le
  have number := dayNumber_ofDayNumber start
  rw [daysBefore_end] at inYear
  have lastDay : daysBefore date.year date.month + date.day ≤ 366 := by
    split_ifs at inYear <;> omega
  refine ⟨after.le, ?_⟩
  simp only [dayNumber, yearStart] at number lastDay ⊢
  omega

/-- The 29th of February of a leap year. -/
def leapDay (year : Int) (leap : IsLeap year) : Date :=
  ⟨year, 2, 29, by decide, by decide, by decide, by simp [daysInMonth, leap]⟩

/-- The 29th of February is the sixtieth day of its year. -/
theorem dayNumber_leapDay {year : Int} (leap : IsLeap year) :
    (leapDay year leap).dayNumber = yearStart year + 60 - 719163 := by
  have january : daysBefore year 2 = 31 := by simp [daysBefore, daysInMonth]
  simp only [dayNumber, leapDay]
  omega

/-- Leap days are at most eight years apart, a century that has none between them
included. -/
theorem exists_leapDay (start : Int) :
    ∃ year, ∃ leap : IsLeap year,
      start ≤ (leapDay year leap).dayNumber ∧ (leapDay year leap).dayNumber ≤ start + 2922 := by
  simp only [dayNumber_leapDay]
  obtain ⟨current, same⟩ : ∃ current : Date, current.dayNumber = start :=
    ⟨_, dayNumber_ofDayNumber start⟩
  have started := current.day_pos
  have inYear := current.dayOfYear_le
  rw [daysBefore_end] at inYear
  rw [dayNumber] at same
  generalize current.year = year at same inYear
  generalize ordinal : daysBefore year current.month + current.day = day at inYear
  have numbered : start = yearStart year + day - 719163 := by omega
  by_cases inTime : IsLeap year ∧ day ≤ 60
  · exact ⟨year, inTime.1, by omega, by omega⟩
  · by_cases soon : IsLeap (year - year % 4 + 4)
    · refine ⟨_, soon, ?_⟩
      simp only [yearStart] at numbered ⊢
      split_ifs at inYear <;> omega
    · -- the multiple of four is a century year without a leap day
      have leap : IsLeap (year - year % 4 + 8) := by
        rw [IsLeap] at soon ⊢
        omega
      refine ⟨_, leap, ?_⟩
      rw [IsLeap] at inTime soon
      simp only [yearStart] at numbered ⊢
      split_ifs at inYear <;> omega

/-- The day and the month of a date come again within eight years. -/
theorem exists_sameDay (date : Date) (start : Int) :
    ∃ later : Date, later.month = date.month ∧ later.day = date.day ∧
      start ≤ later.dayNumber ∧ later.dayNumber ≤ start + 2922 := by
  by_cases fits : date.day ≤ daysInMonth ((ofDayNumber start).year + 1) date.month
  · exact ⟨⟨_, date.month, date.day, date.month_pos, date.month_le, date.day_pos, fits⟩, rfl, rfl,
      nextYear_bounds rfl⟩
  · have last := date.day_le
    have february : date.month = 2 ∧ date.day = 29 := by
      rw [daysInMonth] at fits last
      split_ifs at fits last <;> omega
    obtain ⟨year, leap, bounds⟩ := exists_leapDay start
    exact ⟨leapDay year leap, february.1.symm, february.2.symm, bounds⟩

/-- The month of a date has every day of the week, every year. -/
theorem exists_sameWeekday (date : Date) (start : Int) :
    ∃ later : Date, later.month = date.month ∧ later.weekday = date.weekday ∧
      start ≤ later.dayNumber ∧ later.dayNumber ≤ start + 2922 := by
  have inMonth (day : Nat) (bounded : day ≤ 7) :
      day ≤ daysInMonth ((ofDayNumber start).year + 1) date.month :=
    le_trans (by omega) (le_daysInMonth _ _)
  let first : Date :=
    ⟨_, date.month, 1, date.month_pos, date.month_le, le_refl 1, inMonth 1 (by decide)⟩
  -- the days from the first of the month to the day of the week
  obtain ⟨days, few, reaches⟩ : ∃ days : Nat, days < 7 ∧
      (first.dayNumber + days + 4) % 7 = (date.dayNumber + 4) % 7 :=
    ⟨((date.dayNumber - first.dayNumber) % 7).toNat, by omega, by omega⟩
  let later : Date :=
    ⟨_, date.month, days + 1, date.month_pos, date.month_le, by omega,
      inMonth (days + 1) (by omega)⟩
  have number : later.dayNumber = first.dayNumber + days := by
    simp only [later, first, dayNumber]
    omega
  refine ⟨later, rfl, ?_, nextYear_bounds rfl⟩
  rw [weekday, weekday, number, reaches]

end Date

end AntRuntime.Calendar
