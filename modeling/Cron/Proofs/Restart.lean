/-
  Cron/Proofs/Restart.lean
  ========================
  **Asking again before the announced run.**

  A search that starts later may begin on a date that the first search jumped over, and
  then it takes other carries.  Still it never tests more candidates, as long as it starts
  before the run that both of them look for: the scheduled dates on its way are among those
  on the longer way (`cost_le_cost`).  So the run that was announced once is announced again
  at every moment before it, under the same ceiling, however low that is
  (`nextRun_of_restart`).
-/
import Cron.Proofs.Planner

namespace Cron

open Cron.Calendar

namespace Schedule

variable {schedule : Schedule} {candidate later target : Moment}

/-! ### The shorter way -/

theorem datesUntil_subset {start later : Date} {last? : Option Moment} (h : start ≤ later) :
    schedule.datesUntil later last? ⊆ schedule.datesUntil start last? := by
  rintro date ⟨hscheduled, hlt, hlast⟩
  exact ⟨hscheduled, h.trans_lt hlt, hlast⟩

theorem ncard_datesUntil_mono {start later : Date} {last? : Option Moment} (h : start ≤ later) :
    (schedule.datesUntil later last?).ncard ≤ (schedule.datesUntil start last?).ncard :=
  Set.ncard_le_ncard (datesUntil_subset h)

/-- The date of a permitted moment is one of the dates on the way to it. -/
theorem one_le_ncard_datesUntil {start : Date} (hpermits : schedule.permits target.reading = true)
    (h : start < target.date) : 1 ≤ (schedule.datesUntil start (some target)).ncard := by
  rw [Nat.one_le_iff_ne_zero, ← Nat.pos_iff_ne_zero, Set.ncard_pos]
  refine ⟨target.date, (permits_reading_iff.mp hpermits).1, h, ?_⟩
  rintro _ ⟨⟩
  exact le_refl target.date

/-- A search for another moment than its first candidate tests two candidates at least. -/
theorem two_le_cost (hpermits : schedule.permits target.reading = true)
    (h : candidate < target) : 2 ≤ schedule.cost candidate (some target) := by
  simp only [cost, if_neg h.ne']
  split
  case isTrue => exact le_refl 2
  case isFalse hdate =>
    have hlt := (Moment.date_le h.le).lt_of_ne (Ne.symm hdate)
    have hone := one_le_ncard_datesUntil hpermits hlt
    omega

/-- A later candidate on the way to a permitted moment is no farther from it. -/
theorem cost_le_cost (hpermits : schedule.permits target.reading = true)
    (hle : candidate ≤ later) (hlast : later ≤ target) :
    schedule.cost later (some target) ≤ schedule.cost candidate (some target) := by
  by_cases hfound : target = later
  · have hone : schedule.cost later (some target) = 1 := by simp only [cost, if_pos hfound]
    rw [hone]
    exact one_le_cost candidate (some target)
  by_cases hdate : target.date = later.date
  · -- one step away, and the earlier candidate has not found it either
    have htwo : schedule.cost later (some target) = 2 := by
      simp only [cost, if_neg hfound, if_pos hdate]
    rw [htwo]
    exact two_le_cost hpermits (hle.trans_lt (hlast.lt_of_ne (Ne.symm hfound)))
  · have hlater : ∀ last ∈ some target, last.date ≠ later.date := by
      rintro _ ⟨⟩
      exact hdate
    have hearlier : ∀ last ∈ some target, last.date ≠ candidate.date := by
      rintro _ ⟨⟩ heq
      have hbefore := Moment.date_le hle
      exact hdate (le_antisymm (heq ▸ hbefore) (Moment.date_le hlast))
    rw [cost_eq_of_date_ne hlater, cost_eq_of_date_ne hearlier]
    exact Nat.add_le_add_left (ncard_datesUntil_mono (Moment.date_le hle)) 1

/-- The first permitted moment stays the first one until it has passed. -/
theorem IsFirstFrom.of_le (h : schedule.IsFirstFrom candidate (some target))
    (hle : candidate ≤ later) (hlast : later ≤ target) :
    schedule.IsFirstFrom later (some target) := by
  rw [isFirstFrom_some_iff] at h ⊢
  refine ⟨⟨hlast, h.1.2⟩, ?_⟩
  rintro moment ⟨hafter, hpermits⟩
  exact h.2 ⟨hle.trans hafter, hpermits⟩

end Schedule

namespace Planner

theorem Reaches.of_later {planner : Planner} {start later : Instant} {run : Moment} {count : Nat}
    (h : planner.Reaches start run count) (hle : start ≤ later)
    (hlater : later < Instant.ofMoment run) : ∃ fewer ≤ count, planner.Reaches later run fewer := by
  obtain ⟨candidate, hnext, hfirst, rfl⟩ := h
  have hbefore : later.moment < run := Instant.lt_ofMoment_iff.mp hlater
  obtain ⟨restarted, hrestart⟩ := Moment.exists_next?_of_lt hbefore
  have hlast : restarted ≤ run := (Moment.next_le_iff hrestart).mpr hbefore
  have horder : candidate ≤ restarted := by
    have hafter : later.moment < restarted := (Moment.next_le_iff hrestart).mp (le_refl _)
    exact (Moment.next_le_iff hnext).mpr ((Instant.moment_le hle).trans_lt hafter)
  have hcost := Schedule.cost_le_cost (hfirst.permitted run rfl).2 horder hlast
  exact ⟨_, hcost, restarted, hrestart, hfirst.of_le horder hlast, rfl⟩

/-- **Restart stability.**  Under any ceiling, the run that a search announces is announced
    again by every search that starts between the first start and that run. -/
theorem nextRun_of_restart (planner : Planner) {text : String}
    (h : Schedule.parse text = .ok planner.schedule) {start later : Instant} {run : Moment}
    (hle : start ≤ later) (hrun : planner.nextRun start = .ok run)
    (hlater : later < Instant.ofMoment run) : planner.nextRun later = .ok run := by
  have hs := Schedule.wellFormed_of_parse h
  obtain ⟨count, hcount, hreaches⟩ := (nextRun_eq_ok_iff_reaches hs).mp hrun
  obtain ⟨fewer, hfewer, hagain⟩ := hreaches.of_later hle hlater
  exact (nextRun_eq_ok_iff_reaches hs).mpr ⟨fewer, hfewer.trans hcount, hagain⟩

/-- Ten candidates are just enough from New Year 2024 to the first Friday the thirteenth.
    Asked again half a second into a leap second of July, on a date that the first search
    never looked at, the planner names the same Friday. -/
theorem nextRun_fridayThirteenth_restart :
    let ten : Planner := ⟨fridayThirteenth, ⟨10⟩, by decide⟩
    let start := Instant.ofMoment ⟨⟨2024, 1, 1, by decide⟩, ⟨0, 0, 0, by decide⟩⟩
    let later : Instant :=
      ⟨⟨⟨2024, 7, 14, by decide⟩, ⟨23, 59, 59, by decide⟩⟩, 1500000000, by decide⟩
    let friday : Moment := ⟨⟨2024, 9, 13, by decide⟩, ⟨0, 0, 0, by decide⟩⟩
    start ≤ later ∧ ten.nextRun start = .ok friday ∧ later < Instant.ofMoment friday ∧
      ten.nextRun later = .ok friday := by
  intro ten start later friday
  have h : Schedule.parse "0 0 0 13 * fri" = .ok ten.schedule := by decide +kernel
  have hle : start ≤ later := Or.inl (by decide +kernel)
  have hrun : ten.nextRun start = .ok friday := by decide +kernel
  have hlater : later < Instant.ofMoment friday := Or.inl (by decide +kernel)
  exact ⟨hle, hrun, hlater, nextRun_of_restart ten h hle hrun hlater⟩

end Planner

end Cron
