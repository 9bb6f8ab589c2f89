/-
  Cron/Proofs/Calendar/Shift.lean
  ===============================
  **Dates and moments that lie one cycle apart.**

  The Gregorian calendar repeats itself after 146097 days.  They are 400 years, so a date
  and the date one cycle later show the same month and day (`Date.isCycleAfter_iff`), and
  exactly 20871 weeks, so they fall on the same weekday.  Two moments one cycle apart
  therefore read the same (`Moment.IsCycleAfter.reading_eq`).

  The calendar of the model ends, and a year outside it has no leap day.  A shift is a
  relation here and no function: it holds of two dates of the calendar, and it exists for
  every date that lies before one that has a shift
  (`Date.exists_isCycleAfter`, `Date.exists_isCycleBefore`).
-/
import Cron.Calendar.Reading
import Cron.Proofs.Calendar.Cycle

namespace Cron.Calendar

/-- The days of one cycle of the Gregorian calendar. -/
def cycleDays : Int := 146097

/-! ### Years and months -/

theorem yearStart_add_cycle (year : Int) : yearStart (year + 400) = yearStart year + cycleDays := by
  unfold yearStart cycleDays
  omega

section Months

variable {year : Int} (hfirst : firstYear ≤ year) (hlast : year + 400 ≤ lastYear)
include hfirst hlast

theorem hasLeapDay_add_cycle : hasLeapDay (year + 400) = hasLeapDay year := by
  have hleap := isLeapYear_cycle 1 year
  rw [Int.mul_one, Int.add_comm] at hleap
  have hfirst' : firstYear ≤ year + 400 := by omega
  have hlast' : year ≤ lastYear := by omega
  simp [hasLeapDay, hleap, hfirst, hlast, hfirst', hlast']

theorem daysIn_add_cycle (month : Nat) : daysIn (year + 400) month = daysIn year month := by
  simp only [daysIn, hasLeapDay_add_cycle hfirst hlast]

theorem daysBefore_add_cycle {month : Nat} (hone : 1 ≤ month) (htwelve : month ≤ 12) :
    daysBefore (year + 400) month = daysBefore year month := by
  rw [daysBefore_eq (year + 400) hone htwelve, daysBefore_eq year hone htwelve,
    hasLeapDay_add_cycle hfirst hlast]

theorem isDate_add_cycle_iff {month day : Nat} :
    IsDate (year + 400) month day ↔ IsDate year month day := by
  unfold IsDate
  rw [daysIn_add_cycle hfirst hlast]
  constructor
  · rintro ⟨_, hday⟩
    exact ⟨⟨hfirst, by omega⟩, hday⟩
  · rintro ⟨_, hday⟩
    exact ⟨⟨by omega, hlast⟩, hday⟩

end Months

/-! ### Dates -/

namespace Date

variable {later earlier : Date}

def IsCycleAfter (later earlier : Date) : Prop :=
  later.dayNumber = earlier.dayNumber + cycleDays

/-- What the calendar shows 400 years later lies one cycle later. -/
theorem isCycleAfter_of_eq (hyear : later.year = earlier.year + 400)
    (hmonth : later.month = earlier.month) (hday : later.day = earlier.day) :
    later.IsCycleAfter earlier := by
  obtain ⟨⟨hfirst, _⟩, ⟨hone, htwelve⟩, _⟩ := earlier.isDate
  have hlast := later.isDate.1.2
  rw [hyear] at hlast
  rw [IsCycleAfter, dayNumber_eq, dayNumber_eq, hyear, hmonth, hday, yearStart_add_cycle,
    daysBefore_add_cycle hfirst hlast hone htwelve]
  omega

/-- A date has a shift unless the calendar ends before. -/
theorem exists_isCycleAfter (h : earlier.year + 400 ≤ lastYear) :
    ∃ later : Date, later.IsCycleAfter earlier := by
  have hdate := (isDate_add_cycle_iff earlier.isDate.1.1 h).mpr earlier.isDate
  exact ⟨⟨_, _, _, hdate⟩, isCycleAfter_of_eq rfl rfl rfl⟩

/-- A date is a shift unless the calendar begins after. -/
theorem exists_isCycleBefore (h : firstYear + 400 ≤ later.year) :
    ∃ earlier : Date, later.IsCycleAfter earlier := by
  have hyear : later.year - 400 + 400 = later.year := by omega
  have hdate : IsDate (later.year - 400) later.month later.day := by
    rw [← isDate_add_cycle_iff (by omega) (by rw [hyear]; exact later.isDate.1.2), hyear]
    exact later.isDate
  exact ⟨⟨_, _, _, hdate⟩, isCycleAfter_of_eq hyear.symm rfl rfl⟩

/-- A date that has a shift lies at least one cycle before the end of the calendar. -/
theorem IsCycleAfter.year_le (h : later.IsCycleAfter earlier) :
    earlier.year + 400 ≤ lastYear := by
  by_contra hlast
  have hmono := yearStart_mono (show lastYear + 1 ≤ earlier.year + 400 by omega)
  rw [yearStart_add_cycle] at hmono
  have hstart := earlier.yearStart_lt_dayNumber.1
  have hend := later.dayNumber_bounds.2
  rw [IsCycleAfter] at h
  omega

theorem isCycleAfter_iff :
    later.IsCycleAfter earlier ↔
      later.year = earlier.year + 400 ∧ later.month = earlier.month ∧
        later.day = earlier.day := by
  constructor
  · intro h
    have hdate := (isDate_add_cycle_iff earlier.isDate.1.1 h.year_le).mpr earlier.isDate
    have hshift : IsCycleAfter ⟨_, _, _, hdate⟩ earlier := isCycleAfter_of_eq rfl rfl rfl
    obtain rfl := dayNumber_injective (h.trans hshift.symm)
    exact ⟨rfl, rfl, rfl⟩
  · rintro ⟨hyear, hmonth, hday⟩
    exact isCycleAfter_of_eq hyear hmonth hday

namespace IsCycleAfter

variable {later' earlier' : Date} (h : later.IsCycleAfter earlier)
  (h' : later'.IsCycleAfter earlier')

include h in
theorem weekday_eq : later.weekday = earlier.weekday := by
  unfold IsCycleAfter cycleDays at h
  unfold weekday
  omega

include h h' in
theorem lt_iff : later < later' ↔ earlier < earlier' := by
  unfold IsCycleAfter at h h'
  rw [lt_def, lt_def]
  omega

include h h' in
theorem le_iff : later ≤ later' ↔ earlier ≤ earlier' := by
  rw [← not_lt, ← not_lt, h'.lt_iff h]

include h h' in
theorem eq_iff : later = later' ↔ earlier = earlier' := by
  rw [le_antisymm_iff, le_antisymm_iff, h.le_iff h', h'.le_iff h]

end IsCycleAfter

/-- What lies before a date that has a shift has one too. -/
theorem IsCycleAfter.exists_of_le {date : Date} (h : later.IsCycleAfter earlier)
    (hle : date ≤ earlier) : ∃ shifted : Date, shifted.IsCycleAfter date := by
  have hyear := h.year_le
  have hdate := Date.year_le hle
  exact exists_isCycleAfter (by omega)

/-- What lies after a shift is one too. -/
theorem IsCycleAfter.exists_of_ge {date : Date} (h : later.IsCycleAfter earlier)
    (hle : later ≤ date) : ∃ original : Date, date.IsCycleAfter original := by
  have hyear := (isCycleAfter_iff.mp h).1
  have hfirst := earlier.isDate.1.1
  have hdate := Date.year_le hle
  exact exists_isCycleBefore (by omega)

end Date

/-! ### Moments -/

namespace Moment

variable {later earlier : Moment}

/-- Whether a moment is what adding 146097 days to another one gives. -/
def IsCycleAfter (later earlier : Moment) : Prop :=
  later.toSeconds = earlier.toSeconds + cycleDays * TimeOfDay.secondsPerDay

theorem isCycleAfter_iff :
    later.IsCycleAfter earlier ↔
      later.date.IsCycleAfter earlier.date ∧ later.time = earlier.time := by
  have hlater := later.time.toSeconds_lt
  have hearlier := earlier.time.toSeconds_lt
  have htime : later.time = earlier.time ↔ later.time.toSeconds = earlier.time.toSeconds :=
    TimeOfDay.toSeconds_injective.eq_iff.symm
  rw [htime]
  unfold IsCycleAfter Date.IsCycleAfter toSeconds cycleDays TimeOfDay.secondsPerDay at *
  omega

namespace IsCycleAfter

variable {later' earlier' : Moment} (h : later.IsCycleAfter earlier)
  (h' : later'.IsCycleAfter earlier')

include h in
/-- Moments that lie one cycle apart read the same. -/
theorem reading_eq : later.reading = earlier.reading := by
  obtain ⟨hdate, htime⟩ := isCycleAfter_iff.mp h
  obtain ⟨_, hmonth, hday⟩ := Date.isCycleAfter_iff.mp hdate
  simp only [reading, Date.reading, hmonth, hday, hdate.weekday_eq, htime]

include h h' in
theorem lt_iff : later < later' ↔ earlier < earlier' := by
  unfold IsCycleAfter at h h'
  change later.toSeconds < later'.toSeconds ↔ earlier.toSeconds < earlier'.toSeconds
  omega

include h h' in
theorem le_iff : later ≤ later' ↔ earlier ≤ earlier' := by
  rw [← not_lt, ← not_lt, h'.lt_iff h]

include h h' in
theorem eq_iff : later = later' ↔ earlier = earlier' := by
  rw [le_antisymm_iff, le_antisymm_iff, h.le_iff h', h'.le_iff h]

include h in
theorem exists_of_le {moment : Moment} (hle : moment ≤ earlier) :
    ∃ shifted : Moment, shifted.IsCycleAfter moment := by
  obtain ⟨date, hdate⟩ := (isCycleAfter_iff.mp h).1.exists_of_le (date_le hle)
  exact ⟨⟨date, moment.time⟩, isCycleAfter_iff.mpr ⟨hdate, rfl⟩⟩

include h in
theorem exists_of_ge {moment : Moment} (hle : later ≤ moment) :
    ∃ original : Moment, moment.IsCycleAfter original := by
  obtain ⟨date, hdate⟩ := (isCycleAfter_iff.mp h).1.exists_of_ge (date_le hle)
  exact ⟨⟨date, moment.time⟩, isCycleAfter_iff.mpr ⟨hdate, rfl⟩⟩

include h in
/-- The seconds that follow lie one cycle apart as well. -/
theorem next {next next' : Moment} (hnext : earlier.next? = some next)
    (hnext' : later.next? = some next') : next'.IsCycleAfter next := by
  have hseconds := toSeconds_of_next?_eq_some hnext
  have hseconds' := toSeconds_of_next?_eq_some hnext'
  unfold IsCycleAfter at *
  omega

end IsCycleAfter

end Moment

end Cron.Calendar
