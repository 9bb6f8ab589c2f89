/-
  Cron/Proofs/Calendar/Cycle.lean
  ===============================
  **How soon a day of the year falls on a given weekday.**

  Leap years and weekdays repeat together after 400 years, which are 146097 days or
  exactly 20871 weeks.  So what holds of the 400 years of one cycle holds of all
  years.  Two facts about the cycle are checked year by year:

    * 12 years in a row begin on every day of the week (`exists_yearStart_emod`);
    * 40 years in a row have a 29 February on every day of the week
      (`exists_leapDay_emod`).  Fewer are not enough around a century without one.

  Any other day of the year keeps a fixed distance from the start of its own year or
  of the next one, so it falls on every weekday within 12 years
  (`exists_date_of_common`).
-/
import Cron.Proofs.Calendar.Order
import Mathlib.Tactic.IntervalCases

namespace Cron.Calendar

/-! ### One cycle -/

/-- The weekdays by which the start of a year has moved on after a number of years,
    counted from a year that follows a multiple of 400. -/
def yearShift (years : Nat) : Nat := years + years / 4 - years / 100 + years / 400

theorem yearStart_emod (cycle : Int) (years : Nat) :
    yearStart (400 * cycle + years + 1) % 7 = (yearShift years % 7 : Nat) := by
  have hfour : (400 * cycle + years + 1 - 1) / 4 = 100 * cycle + years / 4 := by omega
  have hhundred : (400 * cycle + years + 1 - 1) / 100 = 4 * cycle + years / 100 := by omega
  have hcycle : (400 * cycle + years + 1 - 1) / 400 = cycle + years / 400 := by omega
  rw [yearStart, yearShift, hfour, hhundred, hcycle]
  omega

theorem isLeapYear_cycle (cycle year : Int) :
    isLeapYear (400 * cycle + year) = isLeapYear year := by
  rw [Bool.eq_iff_iff, isLeapYear_iff, isLeapYear_iff]
  omega

/-- The check of the year starts, by kernel evaluation. -/
private theorem yearShift_table : ∀ years < 400, ∀ weekday < 7,
    ∃ ahead ∈ List.range 12, yearShift (years + ahead) % 7 = weekday := by
  decide +kernel

/-- The check of the leap days among ten multiples of four in a row, by kernel
    evaluation.  A 29 February comes 306 days before the next year, two days more than
    a number of weeks. -/
private theorem leapDay_table : ∀ fours < 100, ∀ weekday < 7,
    ∃ ahead ∈ List.range 10, isLeapYear (4 * (fours + ahead) : Nat) = true ∧
      (yearShift (4 * (fours + ahead)) + 2) % 7 = weekday := by
  decide +kernel

/-- Among twelve years in a row one begins on the day after any given weekday. -/
theorem exists_yearStart_emod (year : Int) {weekday : Nat} (h : weekday < 7) :
    ∃ ahead : Nat, ahead < 12 ∧ yearStart (year + ahead) % 7 = weekday := by
  have hyears : ((year - 1) % 400).toNat < 400 := by omega
  obtain ⟨ahead, hahead, htable⟩ := yearShift_table _ hyears weekday h
  refine ⟨ahead, List.mem_range.mp hahead, ?_⟩
  have hmod := yearStart_emod ((year - 1) / 400) (((year - 1) % 400).toNat + ahead)
  rw [htable] at hmod
  rw [← hmod]
  congr 2
  omega

/-- Among forty years in a row one has a 29 February on any given weekday. -/
theorem exists_leapDay_emod (year : Int) {weekday : Nat} (h : weekday < 7) :
    ∃ ahead : Nat, ahead < 40 ∧ isLeapYear (year + ahead) = true ∧
      (yearStart (year + ahead) + 60) % 7 = weekday := by
  -- the first multiple of four from the year on, as a cycle and a place in it
  obtain ⟨cycle, fours, hfours, hfrom, hto⟩ : ∃ (cycle : Int) (fours : Nat), fours < 100 ∧
      year ≤ 400 * cycle + 4 * fours ∧ 400 * cycle + 4 * fours ≤ year + 3 :=
    ⟨(year + 3) / 4 / 100, ((year + 3) / 4 % 100).toNat, by omega, by omega, by omega⟩
  obtain ⟨ahead, hahead, hleap, htable⟩ := leapDay_table fours hfours weekday h
  rw [List.mem_range] at hahead
  refine ⟨(400 * cycle + 4 * fours - year).toNat + 4 * ahead, by omega, ?_⟩
  have hyear : year + ((400 * cycle + 4 * fours - year).toNat + 4 * ahead : Nat) =
      400 * cycle + (4 * (fours + ahead) : Nat) := by omega
  rw [hyear]
  have hcycle : isLeapYear (400 * cycle + (4 * (fours + ahead) : Nat)) = true := by
    rw [isLeapYear_cycle]
    exact hleap
  refine ⟨hcycle, ?_⟩
  have hmod := yearStart_emod cycle (4 * (fours + ahead))
  have hsucc := yearStart_succ (400 * cycle + (4 * (fours + ahead) : Nat))
  rw [if_pos hcycle] at hsucc
  omega

/-! ### Days of the year -/

/-- A month is preceded by the days that it is preceded by in the year 1, a common
    year, and from March on by a leap day too. -/
theorem daysBefore_eq (year : Int) {month : Nat} (hfirst : 1 ≤ month) (hlast : month ≤ 12) :
    daysBefore year month =
      daysBefore 1 month + if 3 ≤ month ∧ hasLeapDay year = true then 1 else 0 := by
  have hcommon : hasLeapDay 1 = false := by decide
  interval_cases month <;> cases hleap : hasLeapDay year <;>
    simp [daysBefore, daysIn, longestMonth, hleap, hcommon]

/-- A day of the year keeps its distance from the start of its own year, or, when a
    leap day may come before it, from the start of the next one. -/
theorem exists_dayNumber_eq (month day : Nat) : ∃ later shift : Int, ∀ date : Date,
    date.month = month → date.day = day →
      date.dayNumber = yearStart (date.year + later) + shift := by
  by_cases hmarch : 3 ≤ month
  · refine ⟨1, daysBefore 1 month + day - 365, ?_⟩
    rintro date rfl rfl
    obtain ⟨_, ⟨hfirst, hlast⟩, _⟩ := date.isDate
    have hsucc := yearStart_succ date.year
    rw [Date.dayNumber_eq, daysBefore_eq date.year hfirst hlast, Date.hasLeapDay_eq]
    by_cases hleap : isLeapYear date.year = true
    · rw [if_pos hleap] at hsucc
      rw [if_pos ⟨hmarch, hleap⟩]
      omega
    · rw [if_neg hleap] at hsucc
      rw [if_neg fun h => hleap h.2]
      omega
  · refine ⟨0, daysBefore 1 month + day, ?_⟩
    rintro date rfl rfl
    obtain ⟨_, ⟨hfirst, hlast⟩, _⟩ := date.isDate
    rw [Date.dayNumber_eq, daysBefore_eq date.year hfirst hlast]
    simp [hmarch]

/-- A day that every year has falls on any given weekday within twelve years. -/
theorem exists_date_of_common {year : Int} {month day weekday : Nat}
    (hfirst : firstYear ≤ year + 1) (hlast : year + 12 ≤ lastYear) (hdate : IsDate 1 month day)
    (hweekday : weekday < 7) :
    ∃ date : Date, date.month = month ∧ date.day = day ∧ date.weekday = weekday ∧
      year < date.year ∧ date.year ≤ year + 12 := by
  obtain ⟨later, shift, hshift⟩ := exists_dayNumber_eq month day
  have hdue : ((weekday - shift) % 7).toNat < 7 := by omega
  obtain ⟨ahead, hahead, hstart⟩ := exists_yearStart_emod (year + 1 + later) hdue
  obtain ⟨_, hmonth, hone, hday⟩ := hdate
  have hlength : daysIn 1 month ≤ daysIn (year + 1 + ahead) month := by
    have hcommon : hasLeapDay 1 = false := by decide
    unfold daysIn
    rw [hcommon]
    by_cases hfebruary : month = 2
    · subst hfebruary
      simp only [decide_true, Bool.not_false, Bool.and_self, if_true]
      split <;> decide
    · simp [hfebruary]
  have hexists : IsDate (year + 1 + ahead) month day :=
    ⟨⟨by omega, by omega⟩, hmonth, hone, hday.trans hlength⟩
  refine ⟨⟨year + 1 + ahead, month, day, hexists⟩, rfl, rfl, ?_, ?_, ?_⟩
  · have hnumber := hshift ⟨year + 1 + ahead, month, day, hexists⟩ rfl rfl
    simp only [Date.weekday, hnumber]
    have hyear : year + 1 + ahead + later = year + 1 + later + ahead := by omega
    rw [hyear]
    omega
  · simp only
    omega
  · simp only
    omega

/-- A 29 February falls on any given weekday within forty years. -/
theorem exists_date_of_leapDay {year : Int} {weekday : Nat}
    (hfirst : firstYear ≤ year + 1) (hlast : year + 40 ≤ lastYear) (hweekday : weekday < 7) :
    ∃ date : Date, date.month = 2 ∧ date.day = 29 ∧ date.weekday = weekday ∧
      year < date.year ∧ date.year ≤ year + 40 := by
  obtain ⟨ahead, hahead, hleap, hmod⟩ := exists_leapDay_emod (year + 1) hweekday
  have hyears : firstYear ≤ year + 1 + ahead ∧ year + 1 + ahead ≤ lastYear := by omega
  have hlength : daysIn (year + 1 + ahead) 2 = 29 := by
    simp [daysIn, longestMonth, hasLeapDay, hyears, hleap]
  have hexists : IsDate (year + 1 + ahead) 2 29 := by
    refine ⟨hyears, by decide, by decide, ?_⟩
    rw [hlength]
  refine ⟨⟨year + 1 + ahead, 2, 29, hexists⟩, rfl, rfl, ?_, ?_, ?_⟩
  · have hbefore : daysBefore (year + 1 + ahead) 2 = 31 := rfl
    rw [Date.weekday, Date.dayNumber_eq]
    simp only [hbefore]
    push_cast
    omega
  · simp only
    omega
  · simp only
    omega

end Cron.Calendar
