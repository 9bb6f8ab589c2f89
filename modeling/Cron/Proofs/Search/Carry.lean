/-
  Cron/Proofs/Search/Carry.lean
  =============================
  **Where one carry leads.**

  A date is *scheduled* when its month and its day are permitted, whatever its
  weekday is.  One carry out of a moment leads to the nearest place that could be
  permitted:

    * to the first permitted time left on the same date, when the date is scheduled,
      falls on a permitted weekday and has such a time left
      (`successor?_eq_of_time`);
    * else to the first permitted time of the next scheduled date
      (`successor?_eq_of_date`);
    * and nowhere only when there is no scheduled date left in the calendar
      (`successor?_eq_none`).

  The cascade is followed from its coarsest unit to its finest one.  Each unit has
  its own idea of what is late enough, and hands over to the coarser unit exactly
  when nothing is late enough for it.
-/
import Cron.Proofs.Calendar.Order
import Cron.Proofs.Schedule
import Cron.Search.Carry

namespace Cron

open Cron.Calendar

/-! ### Lengths of months -/

theorem hasLeapDate_eq (year : Int) : hasLeapDate year = hasLeapDay year := by
  rw [Bool.eq_iff_iff, hasLeapDate, Option.isSome_iff_ne_none, Ne, Date.of?_eq_none_iff, not_not]
  constructor
  · intro hdate
    by_contra hleap
    have hlength : daysIn year 2 = 28 := by simp [daysIn, hleap]
    have hday := hdate.2.2.2
    omega
  · intro hleap
    have hlength : daysIn year 2 = 29 := by simp [daysIn, longestMonth, hleap]
    have hyears : firstYear ≤ year ∧ year ≤ lastYear := by
      simp only [hasLeapDay, Bool.and_eq_true, decide_eq_true_eq] at hleap
      exact hleap.1
    exact ⟨hyears, by decide, by decide, hlength.ge⟩

theorem daysIn_of_common {month : Nat} (h : month ≠ 2) (year : Int) :
    daysIn year month = longestMonth month := by
  simp [daysIn, h]

/-- The search knows how long the months of the calendar are. -/
theorem monthLength_eq (year : Int) (month : Nat) : monthLength year month = daysIn year month := by
  by_cases hmonth : month = 2
  · rw [hmonth, monthLength, hasLeapDate_eq]
    cases hleap : hasLeapDay year with
    | true => simp [daysIn, longestMonth, hleap]
    | false => simp [daysIn, hleap]
  · rw [daysIn_of_common hmonth]
    unfold monthLength longestMonth
    split <;> simp_all

theorem longestLength_eq (month : Nat) : longestLength month = longestMonth month := by
  have hleap : hasLeapDay 2000 = true := by decide
  simp [longestLength, monthLength_eq, daysIn, hleap]

namespace Schedule

/-! ### Scheduled dates and permitted times -/

/-- Whether a date's month and day are permitted. -/
def IsScheduled (schedule : Schedule) (date : Date) : Prop :=
  date.month ∈ schedule.values .month ∧ date.day ∈ schedule.values .day

def PermitsTime (schedule : Schedule) (time : TimeOfDay) : Prop :=
  time.hour ∈ schedule.values .hour ∧ time.minute ∈ schedule.values .minute ∧
    time.second ∈ schedule.values .second

def PermitsWeekday (schedule : Schedule) (date : Date) : Prop :=
  date.weekday ∈ schedule.values .weekday

/-- The moment that a carry leads to. -/
def successor? (schedule : Schedule) (moment : Moment) : Option Moment :=
  (schedule.carry? moment).bind (schedule.follow? moment)

variable {schedule : Schedule} {moment : Moment}

instance (date : Date) : Decidable (schedule.IsScheduled date) :=
  inferInstanceAs (Decidable (_ ∧ _))

instance (date : Date) : Decidable (schedule.PermitsWeekday date) :=
  inferInstanceAs (Decidable (_ ∈ _))

instance (time : TimeOfDay) : Decidable (schedule.PermitsTime time) :=
  inferInstanceAs (Decidable (_ ∧ _ ∧ _))

/-- A moment is permitted when its date is scheduled and its weekday and its time are
    permitted. -/
theorem permits_reading_iff :
    schedule.permits moment.reading = true ↔
      schedule.IsScheduled moment.date ∧ schedule.PermitsWeekday moment.date ∧
        schedule.PermitsTime moment.time := by
  rw [permits_iff]
  simp only [contains_iff]
  constructor
  · intro h
    exact ⟨⟨h .month, h .day⟩, h .weekday, h .hour, h .minute, h .second⟩
  · rintro ⟨⟨hmonth, hday⟩, hweekday, hhour, hminute, hsecond⟩ field
    cases field <;> assumption

/-! ### Two ways to carry -/

/-- The carry leads to the first time of the date that is late enough, or leaves the
    date because there is none. -/
def CarriesTime (schedule : Schedule) (moment : Moment) (late : TimeOfDay → Prop)
    (carry? : Option Carry) : Prop :=
  (∃ time, carry?.bind (schedule.follow? moment) = some ⟨moment.date, time⟩ ∧
      IsLeast {t | schedule.PermitsTime t ∧ late t} time) ∨
    (∀ t, schedule.PermitsTime t → ¬ late t) ∧ carry? = schedule.carryDay? moment

/-- The carry leads to the first time of the first scheduled date that is late enough,
    or nowhere because there is none. -/
def CarriesDate (schedule : Schedule) (moment : Moment) (late : Date → Prop)
    (carry? : Option Carry) : Prop :=
  (∃ date first, carry?.bind (schedule.follow? moment) = some ⟨date, first⟩ ∧
      schedule.firstTime? = some first ∧
      IsLeast {d | schedule.IsScheduled d ∧ late d} date) ∨
    (∀ d, schedule.IsScheduled d → ¬ late d) ∧ carry?.bind (schedule.follow? moment) = none

theorem CarriesTime.congr {late late' : TimeOfDay → Prop} {carry? : Option Carry}
    (h : schedule.CarriesTime moment late carry?)
    (hlate : ∀ t, schedule.PermitsTime t → (late' t ↔ late t)) :
    schedule.CarriesTime moment late' carry? := by
  have hset : {t | schedule.PermitsTime t ∧ late' t} = {t | schedule.PermitsTime t ∧ late t} :=
    Set.ext fun t => and_congr_right (hlate t)
  rcases h with ⟨time, hfollow, hleast⟩ | ⟨hnone, hcarry⟩
  · exact Or.inl ⟨time, hfollow, hset ▸ hleast⟩
  · exact Or.inr ⟨fun t ht hlt => hnone t ht ((hlate t ht).mp hlt), hcarry⟩

theorem CarriesDate.congr {late late' : Date → Prop} {carry? : Option Carry}
    (h : schedule.CarriesDate moment late carry?)
    (hlate : ∀ d, schedule.IsScheduled d → (late' d ↔ late d)) :
    schedule.CarriesDate moment late' carry? := by
  have hset : {d | schedule.IsScheduled d ∧ late' d} = {d | schedule.IsScheduled d ∧ late d} :=
    Set.ext fun d => and_congr_right (hlate d)
  rcases h with ⟨date, first, hfollow, hfirst, hleast⟩ | ⟨hnone, hfollow⟩
  · exact Or.inl ⟨date, first, hfollow, hfirst, hset ▸ hleast⟩
  · exact Or.inr ⟨fun d hd hlt => hnone d hd ((hlate d hd).mp hlt), hfollow⟩

theorem fits_iff {year : Int} {month : Nat} :
    schedule.fits year month = true ↔ schedule.first .day ≤ daysIn year month := by
  simp [fits, monthLength_eq]

theorem carryDay?_eq :
    schedule.carryDay? moment =
      (((schedule.next? .day moment.date.day).filter fun day =>
          day ≤ daysIn moment.date.year moment.date.month).map Carry.day
        <|> schedule.carryMonth? moment) := by
  simp only [carryDay?, monthLength_eq]

namespace WellFormed

variable (hs : schedule.WellFormed)
include hs

/-! ### Permitted numbers name dates and times -/

theorem exists_time {hour minute second : Nat} (hhour : hour ∈ schedule.values .hour)
    (hminute : minute ∈ schedule.values .minute) (hsecond : second ∈ schedule.values .second) :
    ∃ time, TimeOfDay.of? hour minute second = some time ∧ schedule.PermitsTime time ∧
      time.hour = hour ∧ time.minute = minute ∧ time.second = second := by
  have htime : IsTimeOfDay hour minute second :=
    ⟨Nat.lt_succ_of_le (hs.bounds_of_mem hhour).2, Nat.lt_succ_of_le (hs.bounds_of_mem hminute).2,
      Nat.lt_succ_of_le (hs.bounds_of_mem hsecond).2⟩
  exact ⟨⟨hour, minute, second, htime⟩, dif_pos htime, ⟨hhour, hminute, hsecond⟩, rfl, rfl, rfl⟩

theorem exists_date {year : Int} {month day : Nat} (hfirst : firstYear ≤ year)
    (hlast : year ≤ lastYear) (hmonth : month ∈ schedule.values .month)
    (hday : day ∈ schedule.values .day) (hlength : day ≤ daysIn year month) :
    ∃ date, Date.of? year month day = some date ∧ schedule.IsScheduled date ∧
      date.year = year ∧ date.month = month ∧ date.day = day := by
  have hdate : IsDate year month day :=
    ⟨⟨hfirst, hlast⟩, hs.bounds_of_mem hmonth, (hs.bounds_of_mem hday).1, hlength⟩
  exact ⟨⟨year, month, day, hdate⟩, dif_pos hdate, ⟨hmonth, hday⟩, rfl, rfl, rfl⟩

theorem exists_firstTime :
    ∃ first, schedule.firstTime? = some first ∧ IsLeast {t | schedule.PermitsTime t} first := by
  obtain ⟨first, hfirst, hpermits, hhour, hminute, hsecond⟩ :=
    hs.exists_time (hs.first_mem .hour) (hs.first_mem .minute) (hs.first_mem .second)
  refine ⟨first, hfirst, hpermits, ?_⟩
  rintro time ⟨hh, hm, hsec⟩
  have hleHour := hs.first_le hh
  have hleMinute := hs.first_le hm
  have hleSecond := hs.first_le hsec
  rw [← not_lt, TimeOfDay.lt_iff]
  omega

theorem fits_of_isScheduled {date : Date} (h : schedule.IsScheduled date) :
    schedule.fits date.year date.month = true :=
  fits_iff.mpr ((hs.first_le h.2).trans date.isDate.2.2.2)

/-! ### Carries to a later date -/

omit hs in
theorem exists_leapYear (year : Int) : ∃ n : Nat, n < 8 ∧ isLeapYear (year + n) = true := by
  simp only [isLeapYear_iff]
  by_cases h : (year + 3) / 4 % 25 = 0
  · exact ⟨(4 * ((year + 3) / 4) + 4 - year).toNat, by omega, by omega⟩
  · exact ⟨(4 * ((year + 3) / 4) - year).toNat, by omega, by omega⟩

omit hs in
/-- A month that is long enough in some year is so again within eight years, unless the
    calendar ends before. -/
theorem exists_fits {year other : Int} {month : Nat} (hfirst : firstYear ≤ year)
    (hlast : year + leapYearGap ≤ lastYear) (h : schedule.fits other month = true) :
    ∃ n : Nat, n < leapYearGap ∧ schedule.fits (year + 1 + n) month = true := by
  rw [fits_iff] at h
  obtain ⟨n, hn, hleap⟩ := exists_leapYear (year + 1)
  have hgap : (leapYearGap : Int) = 8 := rfl
  refine ⟨n, hn, fits_iff.mpr ?_⟩
  have hleapDay : hasLeapDay (year + 1 + n) = true := by
    simp only [hasLeapDay, Bool.and_eq_true, decide_eq_true_eq]
    exact ⟨⟨by omega, by omega⟩, hleap⟩
  have hlongest : daysIn (year + 1 + n) month = longestMonth month := by
    simp [daysIn, hleapDay]
  rw [hlongest]
  exact h.trans (daysIn_le other month)

omit hs in
theorem carryInto?_eq_none_iff {year : Int} :
    schedule.carryInto? year = none ↔
      ∀ month ∈ schedule.values .month, ¬ schedule.fits year month = true := by
  rw [carryInto?, Option.map_eq_none_iff, List.find?_eq_none]
  rfl

/-- A carry into a year leads to the first scheduled date of that year, unless the year
    is not in the calendar. -/
theorem carryInto?_eq_some {year : Int} {carry : Carry}
    (h : schedule.carryInto? year = some carry) :
    ∃ month, carry = .year year month (schedule.first .day) ∧
      IsLeast {m | m ∈ schedule.values .month ∧ schedule.fits year m = true} month := by
  obtain ⟨month, hmonth, rfl⟩ := Option.map_eq_some_iff.mp h
  exact ⟨month, rfl, (find?_eq_some_iff_isLeast (hs.ascending .month)).mp hmonth⟩

omit hs in
theorem follow?_atFirstTime {date? : Option Date} {date : Date} {first : TimeOfDay}
    (hdate : date? = some date) (hfirst : schedule.firstTime? = some first) :
    follow?.atFirstTime schedule date? = some ⟨date, first⟩ := by
  rw [follow?.atFirstTime, hdate, hfirst]
  rfl

omit hs in
/-- The first of the years ahead that has a month to enter. -/
theorem carryYear?_eq_some {carry : Carry} (h : schedule.carryYear? moment = some carry) :
    ∃ n : Nat, schedule.carryInto? (moment.date.year + 1 + n) = some carry ∧
      ∀ k < n, schedule.carryInto? (moment.date.year + 1 + k) = none := by
  unfold carryYear? at h
  generalize leapYearGap = years at h
  induction years with
  | zero => cases h
  | succ years ih =>
    rw [List.range_succ, List.findSome?_append, Option.or_eq_some_iff] at h
    rcases h with h | ⟨hbefore, h⟩
    · exact ih h
    · rw [List.findSome?_singleton] at h
      rw [List.findSome?_eq_none_iff] at hbefore
      exact ⟨years, h, fun k hk => hbefore k (List.mem_range.mpr hk)⟩

/-- No date of a year that has no month to enter is scheduled. -/
theorem year_le_of_isScheduled {year : Int} {n : Nat}
    (hnone : ∀ k < n, schedule.carryInto? (year + 1 + k) = none) {date : Date}
    (hdate : schedule.IsScheduled date) (hlate : year < date.year) :
    year + 1 + n ≤ date.year := by
  by_contra hlt
  have hfits := hs.fits_of_isScheduled hdate
  have heq : date.year = year + 1 + (date.year - year - 1).toNat := by omega
  rw [heq] at hfits
  exact carryInto?_eq_none_iff.mp (hnone _ (by omega)) date.month hdate.1 hfits

/-- When the years ahead have no month to enter, then no later year has one either. -/
theorem not_isScheduled_of_carryYear?_eq_none (h : schedule.carryYear? moment = none) {date : Date}
    (hlate : moment.date.year < date.year) : ¬ schedule.IsScheduled date := by
  intro hdate
  have hnone : ∀ n < leapYearGap, schedule.carryInto? (moment.date.year + 1 + n) = none :=
    fun n hn => List.findSome?_eq_none_iff.mp h n (List.mem_range.mpr hn)
  have hyear := hs.year_le_of_isScheduled hnone hdate hlate
  have hwindow : moment.date.year + leapYearGap ≤ lastYear := by
    have hclosing := date.isDate.1.2
    omega
  obtain ⟨n, hn, hfits⟩ :=
    exists_fits moment.date.isDate.1.1 hwindow (hs.fits_of_isScheduled hdate)
  exact carryInto?_eq_none_iff.mp (hnone n hn) date.month hdate.1 hfits

theorem carriesDate_carryYear? :
    schedule.CarriesDate moment (fun d => moment.date.year < d.year)
      (schedule.carryYear? moment) := by
  obtain ⟨hopens, hcloses⟩ := moment.date.isDate.1
  cases hcarry : schedule.carryYear? moment with
  | none =>
    refine Or.inr ⟨fun d hd hlate => ?_, rfl⟩
    exact hs.not_isScheduled_of_carryYear?_eq_none hcarry hlate hd
  | some carry =>
    obtain ⟨n, hinto, hbefore⟩ := carryYear?_eq_some hcarry
    obtain ⟨month, rfl, ⟨hmonth, hfits⟩, hleast⟩ := hs.carryInto?_eq_some hinto
    by_cases hlast : moment.date.year + 1 + n ≤ lastYear
    · left
      obtain ⟨date, hdate, hscheduled, hy, hm, hd⟩ := hs.exists_date (by omega) hlast hmonth
        (hs.first_mem .day) (fits_iff.mp hfits)
      obtain ⟨first, hfirst, _⟩ := hs.exists_firstTime
      refine ⟨date, first, follow?_atFirstTime hdate hfirst, hfirst, ⟨hscheduled, ?_⟩, ?_⟩
      · omega
      · rintro other ⟨hother, hlate⟩
        have hge := hs.year_le_of_isScheduled hbefore hother hlate
        rw [← not_lt, Date.lt_iff, hy, hm, hd]
        have hday := hs.first_le hother.2
        by_cases heq : other.year = moment.date.year + 1 + n
        · have hle := hleast ⟨hother.1, heq ▸ hs.fits_of_isScheduled hother⟩
          omega
        · omega
    · right
      refine ⟨fun d hd hlate => ?_, ?_⟩
      · have hge := hs.year_le_of_isScheduled hbefore hd hlate
        have hclosing := d.isDate.1.2
        omega
      · have hdate : Date.of? (moment.date.year + 1 + n) month (schedule.first .day) = none :=
          Date.of?_eq_none_iff.mpr fun h => hlast h.1.2
        simp [follow?, follow?.atFirstTime, hdate]

theorem carriesDate_carryMonth? :
    schedule.CarriesDate moment
      (fun d => moment.date.year < d.year ∨
        moment.date.year = d.year ∧ moment.date.month < d.month)
      (schedule.carryMonth? moment) := by
  obtain ⟨hopens, hcloses⟩ := moment.date.isDate.1
  rw [carryMonth?]
  cases hfind : schedule.months.find? fun month =>
      moment.date.month < month && schedule.fits moment.date.year month with
  | none =>
    refine hs.carriesDate_carryYear?.congr fun d hd => ⟨fun h => ?_, Or.inl⟩
    rcases h with hyear | ⟨hyear, hmonth⟩
    · exact hyear
    · have hnone := List.find?_eq_none.mp hfind d.month hd.1
      rw [hyear] at hnone
      simp [hmonth, hs.fits_of_isScheduled hd] at hnone
  | some month =>
    obtain ⟨⟨hmonth, htest⟩, hleast⟩ :=
      (find?_eq_some_iff_isLeast (hs.ascending .month)).mp hfind
    rw [Bool.and_eq_true, decide_eq_true_eq] at htest
    obtain ⟨date, hdate, hscheduled, hy, hm, hd⟩ := hs.exists_date hopens hcloses hmonth
      (hs.first_mem .day) (fits_iff.mp htest.2)
    obtain ⟨first, hfirst, _⟩ := hs.exists_firstTime
    refine Or.inl ⟨date, first, follow?_atFirstTime hdate hfirst, hfirst, ⟨hscheduled, ?_⟩, ?_⟩
    · omega
    · rintro other ⟨hother, hlate⟩
      rw [← not_lt, Date.lt_iff, hy, hm, hd]
      have hday := hs.first_le hother.2
      by_cases heq : moment.date.year = other.year
      · have hle := hleast ⟨hother.1, by
          rw [Bool.and_eq_true, decide_eq_true_eq, heq]
          exact ⟨by omega, hs.fits_of_isScheduled hother⟩⟩
        omega
      · omega

/-- The next permitted day of the same month names a date that no later scheduled date
    comes before. -/
theorem exists_date_of_next_day {day : Nat}
    (h : ((schedule.next? .day moment.date.day).filter fun day =>
      day ≤ daysIn moment.date.year moment.date.month) = some day) :
    ∃ date, Date.of? moment.date.year moment.date.month day = some date ∧
      (date.month = moment.date.month ∧ date.day ∈ schedule.values .day) ∧
      moment.date < date ∧ ∀ d, schedule.IsScheduled d → moment.date < d → date ≤ d := by
  obtain ⟨hyears, hmonths, _⟩ := moment.date.isDate
  obtain ⟨hnext, hlength⟩ := Option.filter_eq_some_iff.mp h
  rw [decide_eq_true_eq] at hlength
  obtain ⟨⟨hmem, hlater⟩, hleast⟩ := hs.next?_eq_some_iff.mp hnext
  have hdate : IsDate moment.date.year moment.date.month day :=
    ⟨hyears, hmonths, (hs.bounds_of_mem hmem).1, hlength⟩
  refine ⟨⟨moment.date.year, moment.date.month, day, hdate⟩, dif_pos hdate, ⟨rfl, hmem⟩, ?_, ?_⟩
  · exact Date.lt_iff.mpr (Or.inr ⟨rfl, Or.inr ⟨rfl, hlater⟩⟩)
  · intro d hd hlt
    rw [Date.lt_iff] at hlt
    rw [← not_lt, Date.lt_iff]
    by_cases hsame : moment.date.year = d.year ∧ moment.date.month = d.month
    · have hle := hleast ⟨hd.2, by omega⟩
      simp only
      omega
    · simp only
      omega

/-- When the month has no permitted day left, later scheduled dates lie in later months. -/
theorem later_month_of_no_next_day
    (h : ((schedule.next? .day moment.date.day).filter fun day =>
      day ≤ daysIn moment.date.year moment.date.month) = none)
    {date : Date} (hdate : schedule.IsScheduled date) (hlt : moment.date < date) :
    moment.date.year < date.year ∨
      moment.date.year = date.year ∧ moment.date.month < date.month := by
  rcases Date.lt_iff.mp hlt with hyear | ⟨hyear, hmonth | ⟨hmonth, hlater⟩⟩
  · exact Or.inl hyear
  · exact Or.inr ⟨hyear, hmonth⟩
  · have hlength := date.isDate.2.2.2
    rw [← hyear, ← hmonth] at hlength
    cases hnext : schedule.next? .day moment.date.day with
    | none => exact absurd (next?_eq_none_iff.mp hnext _ hdate.2) (by omega)
    | some day =>
      have hle := (hs.next?_eq_some_iff.mp hnext).2 ⟨hdate.2, hlater⟩
      rw [hnext, Option.filter_some] at h
      simp [hle.trans hlength] at h

/-- Out of a permitted month, the carry into a day leads to the next scheduled date. -/
theorem carriesDate_carryDay? (hmonth : moment.date.month ∈ schedule.values .month) :
    schedule.CarriesDate moment (moment.date < ·) (schedule.carryDay? moment) := by
  rw [carryDay?_eq]
  cases hday : (schedule.next? .day moment.date.day).filter fun day =>
      day ≤ daysIn moment.date.year moment.date.month with
  | none =>
    refine hs.carriesDate_carryMonth?.congr fun d hd => ⟨hs.later_month_of_no_next_day hday hd, ?_⟩
    intro h
    exact Date.lt_iff.mpr (by omega)
  | some day =>
    obtain ⟨date, hdate, ⟨hsame, hmem⟩, hlt, hleast⟩ := hs.exists_date_of_next_day hday
    obtain ⟨first, hfirst, _⟩ := hs.exists_firstTime
    refine Or.inl ⟨date, first, follow?_atFirstTime hdate hfirst, hfirst, ⟨⟨?_, hmem⟩, hlt⟩, ?_⟩
    · rw [hsame]
      exact hmonth
    · rintro other ⟨hother, hlate⟩
      exact hleast other hother hlate

/-! ### Carries to a later time of the same date -/

omit hs in
theorem follow?_onSameDay {time? : Option TimeOfDay} {time : TimeOfDay}
    (htime : time? = some time) :
    follow?.onSameDay moment time? = some ⟨moment.date, time⟩ := by
  rw [follow?.onSameDay, htime]
  rfl

theorem carriesTime_carryHour? :
    schedule.CarriesTime moment (fun t => moment.time.hour < t.hour)
      (schedule.carryHour? moment) := by
  rw [carryHour?]
  cases hnext : schedule.next? .hour moment.time.hour with
  | none =>
    refine Or.inr ⟨fun t ht hlate => ?_, rfl⟩
    have hle := next?_eq_none_iff.mp hnext t.hour ht.1
    omega
  | some hour =>
    obtain ⟨⟨hmem, hlater⟩, hleast⟩ := hs.next?_eq_some_iff.mp hnext
    obtain ⟨time, htime, hpermits, hh, hm, hsec⟩ :=
      hs.exists_time hmem (hs.first_mem .minute) (hs.first_mem .second)
    refine Or.inl ⟨time, follow?_onSameDay htime, ⟨hpermits, by omega⟩, ?_⟩
    rintro t ⟨ht, hlate⟩
    have hleHour := hleast ⟨ht.1, hlate⟩
    have hleMinute := hs.first_le ht.2.1
    have hleSecond := hs.first_le ht.2.2
    rw [← not_lt, TimeOfDay.lt_iff]
    omega

/-- The next permitted minute of the same hour names a time that no later permitted time
    comes before, except in the minute at hand. -/
theorem exists_time_of_next_minute {minute : Nat}
    (h : schedule.next? .minute moment.time.minute = some minute) :
    ∃ time, TimeOfDay.of? moment.time.hour minute (schedule.first .second) = some time ∧
      time.hour = moment.time.hour ∧
      (time.minute ∈ schedule.values .minute ∧ time.second ∈ schedule.values .second) ∧
      moment.time.minute < time.minute ∧
      ∀ t, schedule.PermitsTime t →
        (moment.time.hour < t.hour ∨
          moment.time.hour = t.hour ∧ moment.time.minute < t.minute) → time ≤ t := by
  obtain ⟨⟨hmem, hlater⟩, hleast⟩ := hs.next?_eq_some_iff.mp h
  have hsecond := hs.first_mem .second
  have htime : IsTimeOfDay moment.time.hour minute (schedule.first .second) :=
    ⟨moment.time.isTimeOfDay.1, Nat.lt_succ_of_le (hs.bounds_of_mem hmem).2,
      Nat.lt_succ_of_le (hs.bounds_of_mem hsecond).2⟩
  refine ⟨⟨_, _, _, htime⟩, dif_pos htime, rfl, ⟨hmem, hsecond⟩, hlater, fun t ht hlate => ?_⟩
  have hleSecond := hs.first_le ht.2.2
  rw [← not_lt, TimeOfDay.lt_iff]
  by_cases hsame : moment.time.hour = t.hour
  · have hleMinute := hleast ⟨ht.2.1, by omega⟩
    simp only
    omega
  · simp only
    omega

theorem carriesTime_carryMinute? (hhour : moment.time.hour ∈ schedule.values .hour) :
    schedule.CarriesTime moment
      (fun t => moment.time.hour < t.hour ∨
        moment.time.hour = t.hour ∧ moment.time.minute < t.minute)
      (schedule.carryMinute? moment) := by
  rw [carryMinute?]
  cases hnext : schedule.next? .minute moment.time.minute with
  | none =>
    refine hs.carriesTime_carryHour?.congr fun t ht => or_iff_left ?_
    rintro ⟨_, hlater⟩
    have hle := next?_eq_none_iff.mp hnext t.minute ht.2.1
    omega
  | some minute =>
    obtain ⟨time, htime, hsame, hmem, hlater, hleast⟩ := hs.exists_time_of_next_minute hnext
    refine Or.inl ⟨time, follow?_onSameDay htime, ⟨⟨?_, hmem⟩, Or.inr ⟨hsame.symm, hlater⟩⟩, ?_⟩
    · rw [hsame]
      exact hhour
    · rintro t ⟨ht, hlate⟩
      exact hleast t ht hlate

/-- The next permitted second of the same minute names a time that no later permitted time
    comes before. -/
theorem exists_time_of_next_second {second : Nat}
    (h : schedule.next? .second moment.time.second = some second) :
    ∃ time, TimeOfDay.of? moment.time.hour moment.time.minute second = some time ∧
      (time.hour = moment.time.hour ∧ time.minute = moment.time.minute) ∧
      time.second ∈ schedule.values .second ∧ moment.time < time ∧
      ∀ t, schedule.PermitsTime t → moment.time < t → time ≤ t := by
  obtain ⟨⟨hmem, hlater⟩, hleast⟩ := hs.next?_eq_some_iff.mp h
  obtain ⟨hhour, hminute, _⟩ := moment.time.isTimeOfDay
  have htime : IsTimeOfDay moment.time.hour moment.time.minute second :=
    ⟨hhour, hminute, Nat.lt_succ_of_le (hs.bounds_of_mem hmem).2⟩
  refine ⟨⟨_, _, _, htime⟩, dif_pos htime, ⟨rfl, rfl⟩, hmem, ?_, fun t ht hlate => ?_⟩
  · exact TimeOfDay.lt_iff.mpr (Or.inr ⟨rfl, Or.inr ⟨rfl, hlater⟩⟩)
  · rw [TimeOfDay.lt_iff] at hlate
    rw [← not_lt, TimeOfDay.lt_iff]
    by_cases hsame : moment.time.hour = t.hour ∧ moment.time.minute = t.minute
    · have hleSecond := hleast ⟨ht.2.2, by omega⟩
      simp only
      omega
    · simp only
      omega

/-- Out of a permitted minute of a permitted hour, the carry into a second leads to the
    next permitted time. -/
theorem carriesTime_carrySecond? (hhour : moment.time.hour ∈ schedule.values .hour)
    (hminute : moment.time.minute ∈ schedule.values .minute) :
    schedule.CarriesTime moment (moment.time < ·) (schedule.carrySecond? moment) := by
  rw [carrySecond?]
  cases hnext : schedule.next? .second moment.time.second with
  | none =>
    refine (hs.carriesTime_carryMinute? hhour).congr fun t ht => ?_
    have hle := next?_eq_none_iff.mp hnext t.second ht.2.2
    rw [TimeOfDay.lt_iff]
    omega
  | some second =>
    obtain ⟨time, htime, ⟨hh, hm⟩, hmem, hlt, hleast⟩ := hs.exists_time_of_next_second hnext
    refine Or.inl ⟨time, follow?_onSameDay htime, ⟨⟨?_, ?_, hmem⟩, hlt⟩, ?_⟩
    · rw [hh]
      exact hhour
    · rw [hm]
      exact hminute
    · rintro t ⟨ht, hlate⟩
      exact hleast t ht hlate

/-! ### The carry out of a rejected moment -/

/-- On a date that could be permitted, the carry looks for a later time first. -/
theorem carriesTime_carry? (hdate : schedule.IsScheduled moment.date)
    (hweekday : schedule.PermitsWeekday moment.date) :
    schedule.CarriesTime moment (moment.time < ·) (schedule.carry? moment) := by
  have hmonth : schedule.contains .month moment.reading.month = true := contains_iff.mpr hdate.1
  have hday : schedule.contains .day moment.reading.day = true := contains_iff.mpr hdate.2
  have hweek : schedule.contains .weekday moment.reading.weekday = true :=
    contains_iff.mpr hweekday
  simp only [carry?, hmonth, hday, hweek, Bool.not_true, Bool.false_eq_true, Bool.or_self,
    if_false, Bool.not_eq_true', ← Bool.not_eq_true, contains_iff]
  split
  · rename_i hout
    have hhour : moment.time.hour ∉ schedule.values .hour := hout
    refine hs.carriesTime_carryHour?.congr fun t ht => ?_
    have hne : t.hour ≠ moment.time.hour := fun h => hhour (h ▸ ht.1)
    rw [TimeOfDay.lt_iff]
    omega
  · rename_i hhour
    rw [not_not] at hhour
    split
    · rename_i hout
      have hminute : moment.time.minute ∉ schedule.values .minute := hout
      refine (hs.carriesTime_carryMinute? hhour).congr fun t ht => ?_
      have hne : t.minute ≠ moment.time.minute := fun h => hminute (h ▸ ht.2.1)
      rw [TimeOfDay.lt_iff]
      omega
    · rename_i hminute
      exact hs.carriesTime_carrySecond? hhour (not_not.mp hminute)

omit hs in
/-- A date that the schedule rejects in a permitted month is left by the day. -/
theorem carry?_eq_carryDay? (hmonth : moment.date.month ∈ schedule.values .month)
    (h : ¬ (schedule.IsScheduled moment.date ∧ schedule.PermitsWeekday moment.date)) :
    schedule.carry? moment = schedule.carryDay? moment := by
  have hcontains : schedule.contains .month moment.reading.month = true := contains_iff.mpr hmonth
  have hrejects : (!schedule.contains .day moment.reading.day ||
      !schedule.contains .weekday moment.reading.weekday) = true := by
    rw [← Bool.not_and, Bool.not_eq_true', ← Bool.not_eq_true, Bool.and_eq_true, contains_iff,
      contains_iff]
    exact fun hboth => h ⟨⟨hmonth, hboth.1⟩, hboth.2⟩
  simp only [carry?, hcontains, hrejects, Bool.not_true, Bool.false_eq_true, if_false, if_true]

omit hs in
theorem carry?_eq_carryMonth? (hmonth : moment.date.month ∉ schedule.values .month) :
    schedule.carry? moment = schedule.carryMonth? moment := by
  have hcontains : ¬ schedule.contains .month moment.reading.month = true :=
    mt contains_iff.mp hmonth
  simp only [carry?, hcontains, Bool.not_false, if_true]

/-- Out of any other date, the carry leads to the next scheduled date. -/
theorem carriesDate_carry?
    (h : ¬ (schedule.IsScheduled moment.date ∧ schedule.PermitsWeekday moment.date)) :
    schedule.CarriesDate moment (moment.date < ·) (schedule.carry? moment) := by
  by_cases hmonth : moment.date.month ∈ schedule.values .month
  · rw [carry?_eq_carryDay? hmonth h]
    exact hs.carriesDate_carryDay? hmonth
  · rw [carry?_eq_carryMonth? hmonth]
    refine hs.carriesDate_carryMonth?.congr fun d hd => ?_
    have hne : d.month ≠ moment.date.month := fun heq => hmonth (heq ▸ hd.1)
    rw [Date.lt_iff]
    omega

/-! ### Where it leads -/

theorem successor?_eq_of_time {time : TimeOfDay} (hdate : schedule.IsScheduled moment.date)
    (hweekday : schedule.PermitsWeekday moment.date)
    (htime : IsLeast {t | schedule.PermitsTime t ∧ moment.time < t} time) :
    schedule.successor? moment = some ⟨moment.date, time⟩ := by
  rcases hs.carriesTime_carry? hdate hweekday with ⟨found, hfollow, hleast⟩ | ⟨hnone, _⟩
  · rw [successor?, hfollow, hleast.unique htime]
  · exact absurd htime.1.2 (hnone time htime.1.1)

/-- Out of a date that has no permitted time left, the carry leads to the next scheduled
    date. -/
theorem carriesDate_of_no_later
    (h : schedule.IsScheduled moment.date → schedule.PermitsWeekday moment.date →
      ∀ t, schedule.PermitsTime t → t ≤ moment.time) :
    schedule.CarriesDate moment (moment.date < ·) (schedule.carry? moment) := by
  by_cases hdate : schedule.IsScheduled moment.date ∧ schedule.PermitsWeekday moment.date
  · rcases hs.carriesTime_carry? hdate.1 hdate.2 with ⟨time, _, hleast⟩ | ⟨_, hcarry⟩
    · exact absurd hleast.1.2 (h hdate.1 hdate.2 time hleast.1.1).not_gt
    · rw [hcarry]
      exact hs.carriesDate_carryDay? hdate.1.1
  · exact hs.carriesDate_carry? hdate

theorem successor?_eq_of_date {date : Date} {first : TimeOfDay}
    (h : schedule.IsScheduled moment.date → schedule.PermitsWeekday moment.date →
      ∀ t, schedule.PermitsTime t → t ≤ moment.time)
    (hfirst : schedule.firstTime? = some first)
    (hdate : IsLeast {d | schedule.IsScheduled d ∧ moment.date < d} date) :
    schedule.successor? moment = some ⟨date, first⟩ := by
  rcases hs.carriesDate_of_no_later h with ⟨found, time, hfollow, htime, hleast⟩ | ⟨hnone, _⟩
  · rw [successor?, hfollow, hleast.unique hdate, Option.some.inj (htime.symm.trans hfirst)]
  · exact absurd hdate.1.2 (hnone date hdate.1.1)

theorem successor?_eq_none
    (h : schedule.IsScheduled moment.date → schedule.PermitsWeekday moment.date →
      ∀ t, schedule.PermitsTime t → t ≤ moment.time)
    (hnone : ∀ d, schedule.IsScheduled d → d ≤ moment.date) :
    schedule.successor? moment = none := by
  rcases hs.carriesDate_of_no_later h with ⟨date, _, _, _, hleast⟩ | ⟨_, hfollow⟩
  · exact absurd hleast.1.2 (hnone date hleast.1.1).not_gt
  · rw [successor?, hfollow]

end WellFormed

end Schedule

end Cron
