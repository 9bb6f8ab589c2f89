/-
  Cron/Proofs/Recurrence.lean
  ===========================
  **Searches that start one cycle apart.**

  A schedule looks at months, days, weekdays and times, and all of these come back after the
  146097 days of one cycle.  So the scheduled dates on the way to a run are shifted with the
  start and the run (`datesUntil_shift`), and two searches that start one cycle apart test
  equally many candidates on their way to two runs one cycle apart
  (`Planner.reaches_shift_iff`).

  The calendar ends, and near its end the shift of a run need not exist.  Where the later
  search finds a run, the run one cycle before it exists, because the earlier start lies
  before that (`nextRun_shift`).
-/
import Cron.Proofs.Calendar.Shift
import Cron.Proofs.Planner

namespace Cron

open Cron.Calendar

namespace Schedule

variable {schedule : Schedule} {candidate target shiftedCandidate shiftedTarget : Moment}

/-! ### Shifting what a search meets -/

theorem isScheduled_shift_iff {date shifted : Date} (h : shifted.IsCycleAfter date) :
    schedule.IsScheduled shifted ↔ schedule.IsScheduled date := by
  obtain ⟨_, hmonth, hday⟩ := Date.isCycleAfter_iff.mp h
  simp only [IsScheduled, hmonth, hday]

section Shifted

variable (hcandidate : shiftedCandidate.IsCycleAfter candidate)
  (htarget : shiftedTarget.IsCycleAfter target)
include hcandidate htarget

/-- The first permitted moment is shifted with the candidate.  Whatever lies between the
    candidate and the target has a shift, and whatever lies between their shifts is one. -/
theorem isFirstFrom_shift_iff :
    schedule.IsFirstFrom shiftedCandidate (some shiftedTarget) ↔
      schedule.IsFirstFrom candidate (some target) := by
  rw [isFirstFrom_some_iff, isFirstFrom_some_iff]
  constructor
  · rintro ⟨⟨hle, hpermits⟩, hleast⟩
    rw [hcandidate.le_iff htarget] at hle
    rw [htarget.reading_eq] at hpermits
    refine ⟨⟨hle, hpermits⟩, ?_⟩
    rintro moment ⟨hafter, hmoment⟩
    by_contra hbefore
    obtain ⟨shifted, hshift⟩ := htarget.exists_of_le (not_le.mp hbefore).le
    rw [← hshift.reading_eq] at hmoment
    have hmem := hleast ⟨(hcandidate.le_iff hshift).mpr hafter, hmoment⟩
    exact hbefore ((htarget.le_iff hshift).mp hmem)
  · rintro ⟨⟨hle, hpermits⟩, hleast⟩
    rw [← hcandidate.le_iff htarget] at hle
    rw [← htarget.reading_eq] at hpermits
    refine ⟨⟨hle, hpermits⟩, ?_⟩
    rintro moment ⟨hafter, hmoment⟩
    obtain ⟨original, hshift⟩ := hcandidate.exists_of_ge hafter
    rw [hshift.reading_eq] at hmoment
    have hmem := hleast ⟨(hcandidate.le_iff hshift).mp hafter, hmoment⟩
    exact (htarget.le_iff hshift).mpr hmem

/-- The days on the way are shifted one by one. -/
theorem datesUntil_shift :
    Date.dayNumber '' schedule.datesUntil shiftedCandidate.date (some shiftedTarget) =
      (fun date : Date => date.dayNumber + cycleDays) ''
        schedule.datesUntil candidate.date (some target) := by
  have hstart := (Moment.isCycleAfter_iff.mp hcandidate).1
  have hend := (Moment.isCycleAfter_iff.mp htarget).1
  ext number
  constructor
  · rintro ⟨shifted, ⟨hscheduled, hlt, hle⟩, rfl⟩
    obtain ⟨date, hshift⟩ := hstart.exists_of_ge hlt.le
    refine ⟨date, ⟨(isScheduled_shift_iff hshift).mp hscheduled, ?_, ?_⟩, hshift.symm⟩
    · exact (hstart.lt_iff hshift).mp hlt
    · rintro _ ⟨⟩
      exact (hshift.le_iff hend).mp (hle shiftedTarget rfl)
  · rintro ⟨date, ⟨hscheduled, hlt, hle⟩, rfl⟩
    obtain ⟨shifted, hshift⟩ := hend.exists_of_le (hle target rfl)
    refine ⟨shifted, ⟨(isScheduled_shift_iff hshift).mpr hscheduled, ?_, ?_⟩, hshift⟩
    · exact (hstart.lt_iff hshift).mpr hlt
    · rintro _ ⟨⟩
      exact (hshift.le_iff hend).mpr (hle target rfl)

theorem ncard_datesUntil_shift :
    (schedule.datesUntil shiftedCandidate.date (some shiftedTarget)).ncard =
      (schedule.datesUntil candidate.date (some target)).ncard := by
  have hinjective : Function.Injective fun date : Date => date.dayNumber + cycleDays :=
    (add_left_injective cycleDays).comp Date.dayNumber_injective
  rw [← Set.ncard_image_of_injective _ Date.dayNumber_injective,
    datesUntil_shift hcandidate htarget, Set.ncard_image_of_injective _ hinjective]

theorem cost_shift :
    schedule.cost shiftedCandidate (some shiftedTarget) =
      schedule.cost candidate (some target) := by
  have hstart := (Moment.isCycleAfter_iff.mp hcandidate).1
  have hend := (Moment.isCycleAfter_iff.mp htarget).1
  simp only [cost, htarget.eq_iff hcandidate, hend.eq_iff hstart,
    ncard_datesUntil_shift hcandidate htarget]

end Shifted

end Schedule

namespace Planner

variable {planner : Planner} {start shifted : Instant} {run recurring : Moment} {count : Nat}

/-- From two starts one cycle apart, a search gets to two runs one cycle apart on equally
    long ways. -/
theorem reaches_shift_iff (hstart : shifted.moment.IsCycleAfter start.moment)
    (hrun : recurring.IsCycleAfter run) :
    planner.Reaches shifted recurring count ↔ planner.Reaches start run count := by
  constructor
  · rintro ⟨candidate', hnext', hfirst, hcost⟩
    have hlt' := (Moment.next_le_iff hnext').mp (hfirst.permitted recurring rfl).1
    obtain ⟨candidate, hnext⟩ := Moment.exists_next?_of_lt ((hstart.lt_iff hrun).mp hlt')
    have hcandidate := hstart.next hnext hnext'
    rw [Schedule.isFirstFrom_shift_iff hcandidate hrun] at hfirst
    rw [Schedule.cost_shift hcandidate hrun] at hcost
    exact ⟨candidate, hnext, hfirst, hcost⟩
  · rintro ⟨candidate, hnext, hfirst, hcost⟩
    have hlt := (Moment.next_le_iff hnext).mp (hfirst.permitted run rfl).1
    obtain ⟨candidate', hnext'⟩ := Moment.exists_next?_of_lt ((hstart.lt_iff hrun).mpr hlt)
    have hcandidate := hstart.next hnext hnext'
    rw [← Schedule.isFirstFrom_shift_iff hcandidate hrun] at hfirst
    rw [← Schedule.cost_shift hcandidate hrun] at hcost
    exact ⟨candidate', hnext', hfirst, hcost⟩

theorem Reaches.start_lt (h : planner.Reaches start run count) : start.moment < run := by
  obtain ⟨candidate, hnext, hfirst, _⟩ := h
  exact (Moment.next_le_iff hnext).mp (hfirst.permitted run rfl).1

/-- **Recurrence.**  Under any ceiling, two starts that lie 146097 days apart, whatever their
    nanoseconds are, read the same to a schedule, and the runs found from them lie 146097
    days apart after equally many candidates: from the later start, when the run found from
    the earlier one has a moment of the calendar 146097 days after it, and from the earlier
    start always. -/
theorem nextRun_shift (planner : Planner) {text : String}
    (h : Schedule.parse text = .ok planner.schedule) {start shifted : Instant}
    (hstart : shifted.moment.IsCycleAfter start.moment) :
    planner.schedule.permits shifted.moment.reading =
        planner.schedule.permits start.moment.reading ∧
      (∀ run recurring, planner.nextRun start = .ok run → recurring.IsCycleAfter run →
        planner.nextRun shifted = .ok recurring ∧
          (planner.search shifted.moment).tested = (planner.search start.moment).tested) ∧
      ∀ recurring, planner.nextRun shifted = .ok recurring →
        ∃ run, recurring.IsCycleAfter run ∧ planner.nextRun start = .ok run ∧
          (planner.search start.moment).tested = (planner.search shifted.moment).tested := by
  have hs := Schedule.wellFormed_of_parse h
  refine ⟨by rw [hstart.reading_eq], ?_, ?_⟩
  · intro run recurring hnext hrun
    obtain ⟨count, hcount, hreaches⟩ := (nextRun_eq_ok_iff_reaches hs).mp hnext
    have hlater := (reaches_shift_iff hstart hrun).mpr hreaches
    refine ⟨(nextRun_eq_ok_iff_reaches hs).mpr ⟨count, hcount, hlater⟩, ?_⟩
    rw [hlater.tested_search hs hcount, hreaches.tested_search hs hcount]
  · intro recurring hnext
    obtain ⟨count, hcount, hlater⟩ := (nextRun_eq_ok_iff_reaches hs).mp hnext
    obtain ⟨run, hrun⟩ := hstart.exists_of_ge hlater.start_lt.le
    have hreaches := (reaches_shift_iff hstart hrun).mp hlater
    refine ⟨run, hrun, (nextRun_eq_ok_iff_reaches hs).mpr ⟨count, hcount, hreaches⟩, ?_⟩
    rw [hlater.tested_search hs hcount, hreaches.tested_search hs hcount]

/-- Mondays that are a 29 February.  The way from the year -4 across the year 0 to the year
    16 takes six candidates and so does the way from 396 to 416.  Near the end of the
    calendar, too, the run that is found in 262112 follows one that is a cycle older. -/
theorem nextRun_leapMondays_shift :
    let six : Planner := ⟨⟨[0], [0], [0], [29], [2], [1]⟩, ⟨6⟩, by decide⟩
    let start := Instant.ofMoment ⟨⟨-4, 3, 1, by decide⟩, TimeOfDay.midnight⟩
    let shifted : Instant := ⟨⟨⟨396, 3, 1, by decide⟩, TimeOfDay.midnight⟩, 500, by decide⟩
    let early := Instant.ofMoment ⟨⟨261700, 3, 1, by decide⟩, TimeOfDay.midnight⟩
    let late := Instant.ofMoment ⟨⟨262100, 3, 1, by decide⟩, TimeOfDay.midnight⟩
    let last : Moment := ⟨⟨262112, 2, 29, by decide⟩, TimeOfDay.midnight⟩
    (six.nextRun shifted = .ok ⟨⟨416, 2, 29, by decide⟩, TimeOfDay.midnight⟩ ∧
        (six.search shifted.moment).tested = (six.search start.moment).tested) ∧
      ∃ run, last.IsCycleAfter run ∧ six.nextRun early = .ok run ∧
        (six.search early.moment).tested = (six.search late.moment).tested := by
  intro six start shifted early late last
  have h : Schedule.parse "0 0 0 29 feb mon" = .ok six.schedule := by decide +kernel
  have hstart : shifted.moment.IsCycleAfter start.moment := by
    unfold Moment.IsCycleAfter
    decide +kernel
  have hlate : late.moment.IsCycleAfter early.moment := by
    unfold Moment.IsCycleAfter
    decide +kernel
  constructor
  · refine (nextRun_shift six h hstart).2.1 ⟨⟨16, 2, 29, by decide⟩, TimeOfDay.midnight⟩ _ ?_ ?_
    · decide +kernel
    · unfold Moment.IsCycleAfter
      decide +kernel
  · exact (nextRun_shift six h hlate).2.2 last (by decide +kernel)

end Planner

end Cron
