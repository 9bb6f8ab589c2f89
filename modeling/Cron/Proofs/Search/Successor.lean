/-
  Cron/Proofs/Search/Successor.lean
  =================================
  **One carry, by what it leads to.**

  Where a carry out of a rejected moment leads can be said without the cascade.  A date that
  could be permitted and has a permitted time left is kept, and the carry leads to the first
  such time.  Any other date is left for the next scheduled one, at the first permitted time
  of day, and the carry leads nowhere only when no scheduled date is left
  (`successor?_of_rejected`).

  The units finer than the carried one are set back to their smallest permitted values, with
  one reserve: a year is entered in the smallest of the months that have the smallest
  permitted day in that year, and the smallest month of all may be too short for it.
-/
import Cron.Proofs.Search.Plain
import Cron.Proofs.Search.Trail

namespace Cron

open Cron.Calendar

/-- The place of the unit that a carry moves, counted as those of the fields are.  The year
    comes after the month. -/
def Carry.position : Carry → Nat
  | .second _ => 0
  | .minute _ => 1
  | .hour _ => 2
  | .day _ => 3
  | .month _ _ => 4
  | .year _ _ _ => 5

namespace Schedule

/-- The date of a moment could be permitted, and a permitted time is left on it. -/
structure HasTimeLeft (schedule : Schedule) (moment : Moment) : Prop where
  isScheduled : schedule.IsScheduled moment.date
  permitsWeekday : schedule.PermitsWeekday moment.date
  exists_time : ∃ time, schedule.PermitsTime time ∧ moment.time < time

/-- The fields finer than the carried unit have their smallest permitted values.  Of the
    months only those count that are long enough for the smallest permitted day. -/
def SetsBack (schedule : Schedule) (carry : Carry) (next : Moment) : Prop :=
  ∀ field : Field, field.position < carry.position →
    IsLeast {v | v ∈ schedule.values field ∧
      (field = .month → schedule.fits next.date.year v = true)} (next.reading.get field)

variable {schedule : Schedule} {moment next : Moment} {carry : Carry}

/-! ### What following a carry gives -/

theorem onSameDay_eq_some {hour minute second : Nat}
    (h : follow?.onSameDay moment (TimeOfDay.of? hour minute second) = some next) :
    next.time.hour = hour ∧ next.time.minute = minute ∧ next.time.second = second := by
  obtain ⟨time, htime, rfl⟩ := Option.map_eq_some_iff.mp h
  exact TimeOfDay.of?_eq_some_iff.mp htime

theorem atFirstTime_eq_some {year : Int} {month day : Nat}
    (h : follow?.atFirstTime schedule (Date.of? year month day) = some next) :
    (next.date.year = year ∧ next.date.month = month ∧ next.date.day = day) ∧
      schedule.firstTime? = some next.time := by
  obtain ⟨date, hdate, h⟩ := Option.bind_eq_some_iff.mp h
  obtain ⟨time, htime, h⟩ := Option.bind_eq_some_iff.mp h
  cases h
  exact ⟨Date.of?_eq_some_iff.mp hdate, htime⟩

/-- At the first time of a date all fields of the time of day are set back. -/
theorem get_reading_of_firstTime {field : Field} (hfirst : schedule.firstTime? = some next.time)
    (hfield : field.position < 3) : next.reading.get field = schedule.first field := by
  obtain ⟨hhour, hminute, hsecond⟩ := TimeOfDay.of?_eq_some_iff.mp hfirst
  cases field with
  | second => exact hsecond
  | minute => exact hminute
  | hour => exact hhour
  | day => exact absurd hfield (by decide)
  | month => exact absurd hfield (by decide)
  | weekday => exact absurd hfield (by decide)

namespace WellFormed

variable (hs : schedule.WellFormed)
include hs

/-! ### What is set back -/

theorem isLeast_of_eq_first {field : Field} {year : Int} {value : Nat} (hfield : field ≠ .month)
    (h : value = schedule.first field) :
    IsLeast {v | v ∈ schedule.values field ∧
      (field = .month → schedule.fits year v = true)} value := by
  rw [h]
  have hleast := hs.isLeast_first field
  refine ⟨⟨hleast.1, fun hmonth => absurd hmonth hfield⟩, ?_⟩
  rintro other ⟨hmem, _⟩
  exact hleast.2 hmem

/-- Every carry sets the finer fields back, one case for each unit. -/
theorem setsBack_of_moves (h : schedule.Moves moment carry)
    (hfollow : schedule.follow? moment carry = some next) : schedule.SetsBack carry next := by
  intro field hfiner
  cases h with
  | second => exact absurd hfiner (Nat.not_lt_zero _)
  | minute =>
    obtain ⟨_, _, hsecond⟩ := onSameDay_eq_some hfollow
    change field.position < 1 at hfiner
    cases field with
    | second => exact hs.isLeast_of_eq_first (by decide) hsecond
    | _ => exact absurd hfiner (by decide)
  | hour =>
    obtain ⟨_, hminute, hsecond⟩ := onSameDay_eq_some hfollow
    change field.position < 2 at hfiner
    cases field with
    | second => exact hs.isLeast_of_eq_first (by decide) hsecond
    | minute => exact hs.isLeast_of_eq_first (by decide) hminute
    | _ => exact absurd hfiner (by decide)
  | day =>
    obtain ⟨_, hfirst⟩ := atFirstTime_eq_some hfollow
    change field.position < 3 at hfiner
    have hne : field ≠ .month := by
      rintro rfl
      exact absurd hfiner (by decide)
    exact hs.isLeast_of_eq_first hne (get_reading_of_firstTime hfirst hfiner)
  | month =>
    obtain ⟨⟨_, _, hday⟩, hfirst⟩ := atFirstTime_eq_some hfollow
    change field.position < 4 at hfiner
    cases field with
    | day => exact hs.isLeast_of_eq_first (by decide) hday
    | month => exact absurd hfiner (by decide)
    | weekday => exact absurd hfiner (by decide)
    | _ =>
      exact hs.isLeast_of_eq_first (by decide) (get_reading_of_firstTime hfirst (by decide))
  | year _ hmonth =>
    obtain ⟨⟨hyear, hentered, hday⟩, hfirst⟩ := atFirstTime_eq_some hfollow
    change field.position < 5 at hfiner
    cases field with
    | day => exact hs.isLeast_of_eq_first (by decide) hday
    | month =>
      have hleast := (find?_eq_some_iff_isLeast (hs.ascending .month)).mp hmonth
      rw [← hyear, ← hentered] at hleast
      simp only [forall_const]
      exact hleast
    | weekday => exact absurd hfiner (by decide)
    | _ =>
      exact hs.isLeast_of_eq_first (by decide) (get_reading_of_firstTime hfirst (by decide))

/-! ### Where it leads -/

theorem successor?_of_hasTimeLeft (h : schedule.HasTimeLeft moment) :
    ∃ time, schedule.successor? moment = some ⟨moment.date, time⟩ ∧
      IsLeast {t | schedule.PermitsTime t ∧ moment.time < t} time := by
  obtain ⟨time, htime⟩ :=
    exists_isLeast (s := {t | schedule.PermitsTime t ∧ moment.time < t}) h.exists_time
  exact ⟨time, hs.successor?_eq_of_time h.isScheduled h.permitsWeekday htime, htime⟩

/-- Without a permitted time left, the date is left too. -/
theorem carriesDate_of_not_hasTimeLeft (h : ¬ schedule.HasTimeLeft moment) :
    schedule.CarriesDate moment (moment.date < ·) (schedule.carry? moment) := by
  apply hs.carriesDate_of_no_later
  intro hdate hweekday time htime
  by_contra hlater
  exact h ⟨hdate, hweekday, time, htime, not_le.mp hlater⟩

theorem isLeast_of_not_hasTimeLeft (h : ¬ schedule.HasTimeLeft moment)
    (hnext : schedule.successor? moment = some next) :
    IsLeast {d | schedule.IsScheduled d ∧ moment.date < d} next.date ∧
      schedule.firstTime? = some next.time := by
  rcases hs.carriesDate_of_not_hasTimeLeft h with ⟨date, first, hfollow, hfirst, hleast⟩ |
      ⟨_, hnone⟩
  · obtain rfl : next = ⟨date, first⟩ := Option.some.inj (hnext.symm.trans hfollow)
    exact ⟨hleast, hfirst⟩
  · exact absurd (hnext.symm.trans hnone) (Option.some_ne_none next)

theorem successor?_eq_none_iff (h : ¬ schedule.HasTimeLeft moment) :
    schedule.successor? moment = none ↔ ∀ d, schedule.IsScheduled d → d ≤ moment.date := by
  rcases hs.carriesDate_of_not_hasTimeLeft h with ⟨date, first, hfollow, _, hleast⟩ |
      ⟨hnone, hfollow⟩
  · have hsuccessor : schedule.successor? moment = some ⟨date, first⟩ := hfollow
    rw [hsuccessor]
    refine iff_of_false (Option.some_ne_none _) ?_
    intro hlast
    exact absurd (hlast date hleast.1.1) hleast.1.2.not_ge
  · refine iff_of_true hfollow ?_
    intro date hdate
    exact not_lt.mp (hnone date hdate)

/-- A rejected moment is left for a later one, and no permitted moment lies between. -/
theorem skipsNone_carry? (hrejects : ¬ schedule.permits moment.reading = true) :
    schedule.SkipsNone moment (moment < ·) (schedule.carry? moment) := by
  by_cases h : schedule.HasTimeLeft moment
  · obtain ⟨time, hfollow, htime⟩ := hs.successor?_of_hasTimeLeft h
    have hfirst := isFirstFrom_some_iff.mp
      (isFirstFrom_of_time hrejects h.isScheduled h.permitsWeekday htime)
    refine Or.inl ⟨_, hfollow, Moment.lt_iff.mpr (Or.inr ⟨rfl, htime.1.2⟩), ?_⟩
    intro later hpermits hlt
    exact hfirst.2 ⟨hlt.le, hpermits⟩
  · have hdates := hs.skipsNone_of_carriesDate (hs.carriesDate_of_not_hasTimeLeft h)
    apply hdates.mono
    · intro later hlt
      exact Moment.lt_iff.mpr (Or.inl hlt)
    · intro later hpermits hlt
      rcases Moment.lt_iff.mp hlt with hdate | ⟨hdate, htime⟩
      · exact hdate
      · -- a permitted moment later on the same date would leave it time
        obtain ⟨hscheduled, hweekday, hpermitsTime⟩ := permits_reading_iff.mp hpermits
        rw [← hdate] at hscheduled hweekday
        exact absurd ⟨hscheduled, hweekday, later.time, hpermitsTime, htime⟩ h

end WellFormed

/-- **One carry.**  A rejected moment whose date could be permitted and has a permitted time
    left is carried to the first such time, which is permitted.  Any other is carried to the
    next scheduled date, at the smallest permitted hour, minute and second, or nowhere when
    no scheduled date is left.  What it is carried to is later, no permitted moment lies
    between, and the fields finer than the carried unit are set back. -/
theorem successor?_of_rejected {text : String} (h : Schedule.parse text = .ok schedule)
    (hrejects : schedule.permits moment.reading = false) :
    (schedule.HasTimeLeft moment →
      ∃ time, schedule.successor? moment = some ⟨moment.date, time⟩ ∧
        IsLeast {t | schedule.PermitsTime t ∧ moment.time < t} time ∧
        schedule.permits (⟨moment.date, time⟩ : Moment).reading = true) ∧
      (¬ schedule.HasTimeLeft moment →
        (∀ next, schedule.successor? moment = some next →
          IsLeast {d | schedule.IsScheduled d ∧ moment.date < d} next.date ∧
            ∀ field ∈ [Field.hour, Field.minute, Field.second],
              IsLeast {v | v ∈ schedule.values field} (next.reading.get field)) ∧
          (schedule.successor? moment = none ↔ ∀ d, schedule.IsScheduled d → d ≤ moment.date)) ∧
      ∀ next, schedule.successor? moment = some next →
        moment < next ∧
          (∀ between, moment < between → between < next →
            schedule.permits between.reading = false) ∧
          ∃ carry, schedule.carry? moment = some carry ∧
            schedule.follow? moment carry = some next ∧ schedule.SetsBack carry next := by
  have hs := wellFormed_of_parse h
  rw [← Bool.not_eq_true] at hrejects
  refine ⟨?_, ?_, ?_⟩
  · intro hleft
    obtain ⟨time, hsuccessor, htime⟩ := hs.successor?_of_hasTimeLeft hleft
    refine ⟨time, hsuccessor, htime, ?_⟩
    exact permits_reading_iff.mpr ⟨hleft.isScheduled, hleft.permitsWeekday, htime.1.1⟩
  · intro hleft
    refine ⟨?_, hs.successor?_eq_none_iff hleft⟩
    intro next hnext
    obtain ⟨hdate, hfirst⟩ := hs.isLeast_of_not_hasTimeLeft hleft hnext
    refine ⟨hdate, ?_⟩
    intro field hfield
    have hclock : field.position < 3 := by
      revert hfield
      cases field <;> decide
    rw [get_reading_of_firstTime hfirst hclock]
    exact hs.isLeast_first field
  · intro next hnext
    rcases hs.skipsNone_carry? hrejects with ⟨found, hfound, hlater, hleast⟩ | ⟨_, hnone⟩
    · obtain rfl : found = next := Option.some.inj (hfound.symm.trans hnext)
      obtain ⟨carry, hcarry, hfollow⟩ := Option.bind_eq_some_iff.mp hnext
      refine ⟨hlater, ?_, carry, hcarry, hfollow, ?_⟩
      · intro between hafter hbefore
        by_contra hpermits
        rw [Bool.not_eq_false] at hpermits
        exact absurd (hleast between hpermits hafter) hbefore.not_ge
      · exact hs.setsBack_of_moves (moves_of_carry? hcarry) hfollow
    · exact absurd (hnone.symm.trans hnext) (Option.some_ne_none next).symm

/-- After the evening runs of 31 May there is no run on 30 June, and the carry leads to the
    morning of 31 July. -/
theorem successor?_lastOfMay :
    let schedule : Schedule :=
      ⟨[20, 40], [15, 45], [8, 20], [31], List.range' 1 12, List.range' 0 7⟩
    let moment : Moment := ⟨⟨2024, 5, 31, by decide⟩, ⟨20, 45, 41, by decide⟩⟩
    let next : Moment := ⟨⟨2024, 7, 31, by decide⟩, ⟨8, 15, 20, by decide⟩⟩
    schedule.successor? moment = some next ∧
      IsLeast {d | schedule.IsScheduled d ∧ moment.date < d} next.date ∧
      ∀ between, moment < between → between < next →
        schedule.permits between.reading = false := by
  intro schedule moment next
  have h : Schedule.parse "20,40 15,45 8,20 31 * *" = .ok schedule := by decide +kernel
  have hrejects : schedule.permits moment.reading = false := by decide +kernel
  have hnext : schedule.successor? moment = some next := by decide +kernel
  obtain ⟨_, hother, hafter⟩ := successor?_of_rejected h hrejects
  have hleft : ¬ schedule.HasTimeLeft moment := by
    rintro ⟨_, _, time, ⟨hhour, hminute, hsecond⟩, hlt⟩
    rw [TimeOfDay.lt_iff] at hlt
    simp [schedule, moment, values] at hhour hminute hsecond hlt
    omega
  exact ⟨hnext, ((hother hleft).1 next hnext).1, (hafter next hnext).2.1⟩

/-- In a common year February is too short for a 29th.  The carry into 2026 enters it in
    March, although February is the smallest permitted month. -/
theorem successor?_shortFebruary :
    let schedule : Schedule := ⟨[0], [0], [0], [29], [2, 3], List.range' 0 7⟩
    let moment : Moment := ⟨⟨2025, 4, 1, by decide⟩, ⟨0, 0, 0, by decide⟩⟩
    let next : Moment := ⟨⟨2026, 3, 29, by decide⟩, ⟨0, 0, 0, by decide⟩⟩
    Schedule.parse "0 0 0 29 feb,mar *" = .ok schedule ∧
      schedule.permits moment.reading = false ∧
      schedule.carry? moment = some (.year 2026 3 29) ∧
      schedule.successor? moment = some next ∧
      Field.month.position < (Carry.year 2026 3 29).position ∧
      ¬ IsLeast {v | v ∈ schedule.values .month} (next.reading.get .month) := by
  intro schedule moment next
  refine ⟨by decide +kernel, by decide +kernel, by decide +kernel, by decide +kernel, by decide, ?_⟩
  intro hleast
  have hfebruary : 2 ∈ schedule.values .month := by decide
  exact absurd (hleast.2 hfebruary) (by decide)

end Schedule

end Cron
