/-
  Cron/Proofs/Search/Horizon.lean
  ===============================
  **How far ahead the next permitted moment lies.**

  Whether a schedule ever permits a moment does not depend on weekdays: it does when
  some permitted month is ever long enough for the smallest permitted day.  There are
  two ways to be long enough (`common_or_leapDay`):

    * some scheduled day comes in every year.  Then a permitted moment comes within
      twelve years, and no more than thirteen years of days are tested before it;
    * the only scheduled day is 29 February.  Then a permitted moment comes within
      forty years, and at most one day is tested in each of them.

  Either way a search that is allowed 5000 candidates never stops before a permitted
  moment (`cost_le`).
-/
import Cron.Proofs.Calendar.Cycle
import Cron.Proofs.Search.Walk
import Cron.Search.Outcome

namespace Cron

open Cron.Calendar

namespace Schedule

variable {schedule : Schedule} {candidate target : Moment}

/-! ### Scheduled dates -/

theorem canOccur_iff :
    schedule.canOccur = true ↔
      ∃ month ∈ schedule.values .month, schedule.first .day ≤ longestMonth month := by
  simp [canOccur, values, longestLength_eq]

theorem thirty_le_longestMonth {month : Nat} (h : month ≠ 2) : 30 ≤ longestMonth month := by
  unfold longestMonth
  split <;> omega

/-- The scheduled dates before and at a last one are no more than the days from the first
    to the last. -/
theorem ncard_datesUntil_le_days (start : Date) (last : Moment) :
    (schedule.datesUntil start (some last)).ncard ≤
      (last.date.dayNumber - start.dayNumber).toNat := by
  have hcard : (Set.Ioc start.dayNumber last.date.dayNumber).ncard =
      (last.date.dayNumber - start.dayNumber).toNat := by
    rw [← Finset.coe_Ioc, Set.ncard_coe_finset, Int.card_Ioc]
  rw [← hcard]
  refine Set.ncard_le_ncard_of_injOn Date.dayNumber ?_ Date.dayNumber_injective.injOn
    (Set.finite_Ioc _ _)
  rintro d ⟨_, hlt, hle⟩
  exact ⟨hlt, hle last rfl⟩

/-- When only one day of the year is scheduled, they are no more than the years. -/
theorem ncard_datesUntil_le_years {month day : Nat} (start : Date) (last : Moment)
    (h : ∀ d, schedule.IsScheduled d → d.month = month ∧ d.day = day) :
    (schedule.datesUntil start (some last)).ncard ≤
      (last.date.year + 1 - start.year).toNat := by
  have hcard : (Set.Icc start.year last.date.year).ncard =
      (last.date.year + 1 - start.year).toNat := by
    rw [← Finset.coe_Icc, Set.ncard_coe_finset, Int.card_Icc]
  rw [← hcard]
  refine Set.ncard_le_ncard_of_injOn Date.year ?_ ?_ (Set.finite_Icc _ _)
  · rintro d ⟨_, hlt, hle⟩
    exact ⟨Date.year_le hlt.le, Date.year_le (hle last rfl)⟩
  · intro a ha b hb hyear
    have hscheduled := h a ha.1
    have hscheduled' := h b hb.1
    refine le_antisymm ?_ ?_
    · rw [← not_lt, Date.lt_iff]
      omega
    · rw [← not_lt, Date.lt_iff]
      omega

namespace WellFormed

variable (hs : schedule.WellFormed)
include hs

theorem canOccur_of_isScheduled {date : Date} (h : schedule.IsScheduled date) :
    schedule.canOccur = true :=
  canOccur_iff.mpr ⟨date.month, h.1,
    (hs.first_le h.2).trans (date.isDate.2.2.2.trans (daysIn_le _ _))⟩

theorem not_permits_of_canOccur_eq_false (h : schedule.canOccur = false) (moment : Moment) :
    ¬ schedule.permits moment.reading = true := by
  intro hpermits
  have hcan := hs.canOccur_of_isScheduled (permits_reading_iff.mp hpermits).1
  rw [h] at hcan
  cases hcan

/-- When no permitted month of a year is long enough, although one is in some year, then
    the schedule is one of leap days. -/
theorem eq_leapDay_of_not_fits (hcan : schedule.canOccur = true) {year : Int}
    (h : ∀ month ∈ schedule.values .month, ¬ schedule.fits year month = true) :
    schedule.values .month = [2] ∧ schedule.first .day = 29 := by
  simp only [fits_iff, not_le] at h
  obtain ⟨month, hmonth, hlongest⟩ := canOccur_iff.mp hcan
  have hfebruary : month = 2 := by
    by_contra hne
    have hshort := h month hmonth
    rw [daysIn_of_common hne] at hshort
    omega
  subst hfebruary
  have hfirst : schedule.first .day = 29 := by
    have hshort := h 2 hmonth
    have hlong : longestMonth 2 = 29 := rfl
    have hlength : 28 ≤ daysIn year 2 := by
      unfold daysIn
      split <;> decide
    omega
  have honly : ∀ other ∈ schedule.values .month, other = 2 := by
    intro other hother
    by_contra hne
    have hshort := h other hother
    have hlength := thirty_le_longestMonth hne
    rw [daysIn_of_common hne] at hshort
    omega
  refine ⟨?_, hfirst⟩
  have hsorted := hs.ascending .month
  cases hmonths : schedule.values .month with
  | nil => exact absurd hmonths (hs.nonempty .month)
  | cons first rest =>
    rw [hmonths, List.forall_mem_cons] at honly
    rw [hmonths, List.pairwise_cons] at hsorted
    obtain ⟨rfl, hrest⟩ := honly
    cases rest with
    | nil => rfl
    | cons second rest =>
      have hlt := hsorted.1 second List.mem_cons_self
      have heq := hrest second List.mem_cons_self
      omega

/-- Some scheduled day comes in every year, or the only one is 29 February. -/
theorem common_or_leapDay (h : schedule.canOccur = true) :
    (∃ month ∈ schedule.values .month, ∃ day ∈ schedule.values .day, IsDate 1 month day) ∨
      (2 ∈ schedule.values .month ∧ 29 ∈ schedule.values .day) ∧
        ∀ d, schedule.IsScheduled d → d.month = 2 ∧ d.day = 29 := by
  have hday := hs.first_mem .day
  have hone := (hs.bounds_of_mem hday).1
  by_cases hcommon : ∃ month ∈ schedule.values .month, schedule.fits 1 month = true
  · obtain ⟨month, hmonth, hfits⟩ := hcommon
    exact Or.inl ⟨month, hmonth, _, hday,
      ⟨by decide, by decide⟩, hs.bounds_of_mem hmonth, hone, fits_iff.mp hfits⟩
  · push Not at hcommon
    obtain ⟨hmonths, hfirst⟩ := hs.eq_leapDay_of_not_fits h hcommon
    refine Or.inr ⟨⟨by simp [hmonths], hfirst ▸ hday⟩, fun d hd => ?_⟩
    have hmonth : d.month = 2 := by
      have hmem := hd.1
      rw [hmonths] at hmem
      exact List.mem_singleton.mp hmem
    have hge := hs.first_le hd.2
    have hle := d.isDate.2.2.2.trans (daysIn_le _ _)
    have hlong : longestMonth 2 = 29 := rfl
    rw [hmonth] at hle
    omega

/-! ### Permitted moments -/

theorem exists_permits {date : Date} (hdate : schedule.IsScheduled date)
    (hweekday : schedule.PermitsWeekday date) :
    ∃ moment : Moment, moment.date = date ∧ schedule.permits moment.reading = true := by
  obtain ⟨first, _, hfirst⟩ := hs.exists_firstTime
  exact ⟨⟨date, first⟩, rfl, permits_reading_iff.mpr ⟨hdate, hweekday, hfirst.1⟩⟩

theorem first_weekday_lt : schedule.first .weekday < 7 :=
  Nat.lt_succ_of_le (hs.bounds_of_mem (hs.first_mem .weekday)).2

/-- A day that every year has is permitted within twelve years. -/
theorem exists_permits_of_common {month day : Nat} (hmonth : month ∈ schedule.values .month)
    (hday : day ∈ schedule.values .day) (hdate : IsDate 1 month day) {year : Int}
    (hfirst : firstYear ≤ year + 1) (hlast : year + 12 ≤ lastYear) :
    ∃ moment : Moment, schedule.permits moment.reading = true ∧
      year < moment.date.year ∧ moment.date.year ≤ year + 12 := by
  obtain ⟨date, hm, hd, hw, hlt, hle⟩ :=
    exists_date_of_common hfirst hlast hdate hs.first_weekday_lt
  have hscheduled : schedule.IsScheduled date := ⟨hm ▸ hmonth, hd ▸ hday⟩
  have hweekday : schedule.PermitsWeekday date := by
    rw [PermitsWeekday, hw]
    exact hs.first_mem .weekday
  obtain ⟨moment, rfl, hpermits⟩ := hs.exists_permits hscheduled hweekday
  exact ⟨moment, hpermits, hlt, hle⟩

/-- A 29 February is permitted within forty years. -/
theorem exists_permits_of_leapDay (hmonth : 2 ∈ schedule.values .month)
    (hday : 29 ∈ schedule.values .day) {year : Int}
    (hfirst : firstYear ≤ year + 1) (hlast : year + 40 ≤ lastYear) :
    ∃ moment : Moment, schedule.permits moment.reading = true ∧
      year < moment.date.year ∧ moment.date.year ≤ year + 40 := by
  obtain ⟨date, hm, hd, hw, hlt, hle⟩ :=
    exists_date_of_leapDay hfirst hlast hs.first_weekday_lt
  have hscheduled : schedule.IsScheduled date := ⟨hm ▸ hmonth, hd ▸ hday⟩
  have hweekday : schedule.PermitsWeekday date := by
    rw [PermitsWeekday, hw]
    exact hs.first_mem .weekday
  obtain ⟨moment, rfl, hpermits⟩ := hs.exists_permits hscheduled hweekday
  exact ⟨moment, hpermits, hlt, hle⟩

/-- What can occur at all occurs within forty years. -/
theorem exists_permits_within (h : schedule.canOccur = true) {year : Int}
    (hfirst : firstYear ≤ year + 1) (hlast : year + 40 ≤ lastYear) :
    ∃ moment : Moment, schedule.permits moment.reading = true ∧
      year < moment.date.year ∧ moment.date.year ≤ year + 40 := by
  rcases hs.common_or_leapDay h with ⟨month, hmonth, day, hday, hdate⟩ | ⟨⟨hmonth, hday⟩, _⟩
  · obtain ⟨moment, hpermits, hlt, hle⟩ :=
      hs.exists_permits_of_common hmonth hday hdate hfirst (by omega)
    exact ⟨moment, hpermits, hlt, by omega⟩
  · exact hs.exists_permits_of_leapDay hmonth hday hfirst hlast

/-! ### The cost of reaching one -/

omit hs in
/-- The first permitted moment comes no later than a number of years within which there
    always is one.  Near its end the calendar may be shorter than that. -/
theorem year_le_of_isFirstFrom (count : Nat)
    (hwithin : ∀ year, firstYear ≤ year + 1 → year + count ≤ lastYear →
      ∃ moment : Moment, schedule.permits moment.reading = true ∧
        year < moment.date.year ∧ moment.date.year ≤ year + count)
    (h : schedule.IsFirstFrom candidate (some target)) :
    target.date.year ≤ candidate.date.year + count := by
  obtain ⟨⟨hopens, _⟩, _⟩ := candidate.date.isDate
  obtain ⟨⟨_, hcloses⟩, _⟩ := target.date.isDate
  by_contra hfar
  obtain ⟨moment, hpermits, hlt, hle⟩ := hwithin candidate.date.year (by omega) (by omega)
  have hbefore : candidate.date < moment.date := Date.lt_iff.mpr (Or.inl hlt)
  have hafter : candidate < moment := Moment.lt_iff.mpr (Or.inl hbefore)
  have hleast := (isFirstFrom_some_iff.mp h).2 ⟨hafter.le, hpermits⟩
  have hyear := Date.year_le (Moment.date_le hleast)
  omega

omit hs in
theorem cost_le_succ_ncard (bound : Nat) (hbound : 1 ≤ bound)
    (h : (schedule.datesUntil candidate.date (some target)).ncard ≤ bound) :
    schedule.cost candidate (some target) ≤ 1 + bound := by
  simp only [cost]
  split
  · omega
  · split <;> omega

/-- A first permitted moment is found among 5000 candidates. -/
theorem cost_le (h : schedule.IsFirstFrom candidate (some target)) :
    schedule.cost candidate (some target) ≤ 5000 := by
  obtain ⟨hle, hpermits⟩ := h.permitted target rfl
  have hcan := hs.canOccur_of_isScheduled (permits_reading_iff.mp hpermits).1
  rcases hs.common_or_leapDay hcan with ⟨month, hmonth, day, hday, hdate⟩ | ⟨⟨hmonth, hday⟩, honly⟩
  · have hyear := year_le_of_isFirstFrom 12
      (fun _ => hs.exists_permits_of_common hmonth hday hdate) h
    have hyears : target.date.year < candidate.date.year + (13 : Nat) := by omega
    have hdays := Date.dayNumber_sub_le hyears
    refine (cost_le_succ_ncard (366 * 13) (by decide) ?_).trans (by decide)
    exact (ncard_datesUntil_le_days _ _).trans (by omega)
  · have hyear := year_le_of_isFirstFrom 40
      (fun _ => hs.exists_permits_of_leapDay hmonth hday) h
    refine (cost_le_succ_ncard 41 (by decide) ?_).trans (by decide)
    exact (ncard_datesUntil_le_years _ _ honly).trans (by omega)

end WellFormed

end Schedule

end Cron
