/-
  Cron/Calendar/Date.lean
  =======================
  **Dates of the proleptic Gregorian calendar.**

  The Gregorian rules are carried backwards and forwards without a break, with a
  year 0 and negative years before it.  The calendar is finite: it opens on
  1 January of the year -262143 and closes on 31 December of the year 262142, and
  a date outside it does not exist.

  A year outside the calendar has no leap day either, because none of its days is
  a date.  Questions about the length of its months are still answered, by the
  lengths that the months of a common year have.
-/

namespace Cron.Calendar

/-! ### Years and months -/

def firstYear : Int := -262143

def lastYear : Int := 262142

/-- Whether the Gregorian rule makes a year a leap year: every fourth year is one,
    save the full centuries that 400 does not divide. -/
def isLeapYear (year : Int) : Bool :=
  year % 4 == 0 && (year % 100 != 0 || year % 400 == 0)

/-- Whether the calendar has a 29 February in a year. -/
def hasLeapDay (year : Int) : Bool :=
  firstYear ≤ year && year ≤ lastYear && isLeapYear year

/-- The number of days that a month has in its longest years. -/
def longestMonth : Nat → Nat
  | 2 => 29
  | 4 | 6 | 9 | 11 => 30
  | _ => 31

def daysIn (year : Int) (month : Nat) : Nat :=
  if month = 2 && !hasLeapDay year then 28 else longestMonth month

def daysBefore (year : Int) : Nat → Nat
  | 0 | 1 => 0
  | month + 2 => daysBefore year (month + 1) + daysIn year (month + 1)

theorem daysBefore_succ {month : Nat} (year : Int) (h : 1 ≤ month) :
    daysBefore year (month + 1) = daysBefore year month + daysIn year month := by
  obtain ⟨n, rfl⟩ := Nat.exists_eq_add_of_le' h
  rfl

/-- A year has 365 days, and one more when it has a leap day. -/
theorem daysBefore_add_daysIn_december (year : Int) :
    daysBefore year 12 + daysIn year 12 = if hasLeapDay year then 366 else 365 := by
  by_cases h : hasLeapDay year = true <;> simp [daysBefore, daysIn, longestMonth, h]

theorem one_le_daysIn (year : Int) (month : Nat) : 1 ≤ daysIn year month := by
  unfold daysIn longestMonth
  split
  case isTrue => decide
  case isFalse => split <;> decide

/-! ### Dates -/

/-- Whether a year, month and day name a day of the calendar. -/
def IsDate (year : Int) (month day : Nat) : Prop :=
  (firstYear ≤ year ∧ year ≤ lastYear) ∧ (1 ≤ month ∧ month ≤ 12) ∧
    1 ≤ day ∧ day ≤ daysIn year month

instance (year : Int) (month day : Nat) : Decidable (IsDate year month day) :=
  inferInstanceAs (Decidable (_ ∧ _))

structure Date where
  year : Int
  month : Nat
  day : Nat
  isDate : IsDate year month day
deriving DecidableEq, Repr

namespace Date

/-- The date that a year, a month and a day name, when they name one. -/
def of? (year : Int) (month day : Nat) : Option Date :=
  if h : IsDate year month day then some ⟨year, month, day, h⟩ else none

theorem of?_eq_none_iff {year : Int} {month day : Nat} :
    of? year month day = none ↔ ¬ IsDate year month day := by
  by_cases h : IsDate year month day <;> simp [of?, h]

theorem of?_eq_some_iff {year : Int} {month day : Nat} {date : Date} :
    of? year month day = some date ↔
      date.year = year ∧ date.month = month ∧ date.day = day := by
  constructor
  case mp =>
    intro h
    unfold of? at h
    split at h
    case isTrue => cases h; exact ⟨rfl, rfl, rfl⟩
    case isFalse => cases h
  case mpr =>
    rintro ⟨rfl, rfl, rfl⟩
    exact dif_pos date.isDate

/-- The number of a date in the count of days in which 1 January of the year 1 has
    number 1. -/
def dayNumber (date : Date) : Int :=
  let past := date.year - 1
  365 * past + past / 4 - past / 100 + past / 400 +
    daysBefore date.year date.month + date.day

/-- The day of the week, with 0 for Sunday.  1 January of the year 1 is a Monday, so
    day numbers count from a Sunday. -/
def weekday (date : Date) : Nat := (date.dayNumber % 7).toNat

theorem weekday_lt (date : Date) : date.weekday < 7 := by
  unfold weekday
  omega

/-- The date after another: the next day of its month, or the first day of the next
    month, or the first day of the next year, whichever exists first. -/
def next? (date : Date) : Option Date :=
  of? date.year date.month (date.day + 1)
    <|> of? date.year (date.month + 1) 1
    <|> of? (date.year + 1) 1 1

/-- Within the calendar the Gregorian rule decides alone. -/
theorem hasLeapDay_eq (date : Date) : hasLeapDay date.year = isLeapYear date.year := by
  obtain ⟨⟨hfirst, hlast⟩, _⟩ := date.isDate
  simp [hasLeapDay, hfirst, hlast]

theorem dayNumber_of_next?_eq_some {date next : Date} (h : date.next? = some next) :
    next.dayNumber = date.dayNumber + 1 := by
  obtain ⟨hyears, hmonths, hdays⟩ := date.isDate
  simp only [next?, Option.orElse_eq_orElse, Option.orElse_eq_or, Option.or_eq_some_iff,
    of?_eq_some_iff, of?_eq_none_iff] at h
  rcases h with ⟨hy, hm, hd⟩ | ⟨hday, ⟨hy, hm, hd⟩ | ⟨hmonth, hy, hm, hd⟩⟩
  case inl =>
    simp only [dayNumber, hy, hm, hd]
    omega
  all_goals
    have hlast : daysIn date.year date.month = date.day := by
      unfold IsDate at hday
      omega
  case inr.inl =>
    have hbefore := daysBefore_succ date.year hmonths.1
    simp only [dayNumber, hy, hm, hd, hbefore]
    omega
  case inr.inr =>
    have hfirst := one_le_daysIn date.year (date.month + 1)
    have hmonth : date.month = 12 := by
      unfold IsDate at hmonth
      omega
    have hlength := daysBefore_add_daysIn_december date.year
    rw [← hmonth] at hlength
    rw [hasLeapDay_eq] at hlength
    simp only [dayNumber, hy, hm, hd, daysBefore]
    simp only [isLeapYear, Bool.and_eq_true, Bool.or_eq_true, beq_iff_eq, bne_iff_ne] at hlength
    split at hlength
    case isTrue hleap => omega
    case isFalse hleap => omega

/-- Only the last day of the calendar has no next one. -/
theorem next?_eq_none_iff {date : Date} :
    date.next? = none ↔ date.year = lastYear ∧ date.month = 12 ∧ date.day = 31 := by
  obtain ⟨hyears, hmonths, hdays⟩ := date.isDate
  simp only [next?, Option.orElse_eq_orElse, Option.orElse_eq_or, Option.or_eq_none_iff,
    of?_eq_none_iff]
  have hmonth := one_le_daysIn date.year (date.month + 1)
  have hyear := one_le_daysIn (date.year + 1) 1
  have hdecember : daysIn date.year 12 = 31 := rfl
  unfold IsDate lastYear firstYear at *
  constructor
  case mp =>
    rintro ⟨hday, hmonth, hyear⟩
    have hm : date.month = 12 := by omega
    rw [hm, hdecember] at hdays hday
    omega
  case mpr =>
    rintro ⟨hy, hm, hd⟩
    rw [hy, hm, hd]
    decide

end Date

end Cron.Calendar
