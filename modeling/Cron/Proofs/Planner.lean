/-
  Cron/Proofs/Planner.lean
  ========================
  **What a planner answers.**

  A planner of a schedule that was read from a text answers with the first permitted
  second after an instant, or says that there is none (`nextRun_eq_ok_iff_isLeast`), as
  long as it may test 5000 candidates.  Under a smaller ceiling the answer depends on
  how many scheduled dates lie on the way, and on nothing else (`nextRun_eq_of_cost`).
  The check that comes before the search refuses exactly the schedules that never permit
  anything, and for all others a run comes within forty years (`canOccur_decides`).
-/
import Cron.Planner
import Cron.Proofs.Search.Horizon

namespace Cron

open Cron.Calendar

/-- The permitted seconds after an instant. -/
def Schedule.runsAfter (schedule : Schedule) (start : Instant) : Set Moment :=
  {m | start < Instant.ofMoment m ∧ schedule.permits m.reading = true}

namespace Schedule

variable {schedule : Schedule} {start : Instant}

/-- The runs after an instant are the permitted moments from the next second on. -/
theorem runsAfter_eq {candidate : Moment} (h : start.moment.next? = some candidate) :
    schedule.runsAfter start = {m | candidate ≤ m ∧ schedule.permits m.reading = true} := by
  ext moment
  rw [runsAfter, Set.mem_ofPred_eq, Set.mem_ofPred_eq, Instant.lt_ofMoment_iff,
    Moment.next_le_iff h]

theorem runsAfter_eq_empty (h : start.moment.next? = none) : schedule.runsAfter start = ∅ := by
  refine Set.eq_empty_of_forall_notMem fun moment hmem => ?_
  have hlt := Instant.lt_ofMoment_iff.mp hmem.1
  exact hlt.not_ge (Moment.le_of_next?_eq_none h moment)

theorem WellFormed.runsAfter_eq_empty_of_canOccur (hs : schedule.WellFormed)
    (h : schedule.canOccur = false) : schedule.runsAfter start = ∅ :=
  Set.eq_empty_of_forall_notMem fun moment hmem =>
    hs.not_permits_of_canOccur_eq_false h moment hmem.2

end Schedule

namespace Planner

variable {planner : Planner} {start : Instant} {candidate : Moment} {target? : Option Moment}

/-! ### The answer to a search -/

theorem nextRun_eq_ok_iff {run : Moment} :
    planner.nextRun start = .ok run ↔ (planner.search start.moment).next? = some run := by
  simp only [nextRun, Instant.truncate_eq, Instant.moment_ofMoment]
  cases (planner.search start.moment).next? with
  | none => simp
  | some next => simp

/-- What is reported is the whole second that the search started from. -/
theorem nextRun_eq_error_iff {failure : Failure} :
    planner.nextRun start = .error failure ↔
      (planner.search start.moment).next? = none ∧
        failure = .noNextRun (Instant.ofMoment start.moment) (planner.search start.moment).tested := by
  simp only [nextRun, Instant.truncate_eq, Instant.moment_ofMoment]
  cases (planner.search start.moment).next? with
  | none => simp [eq_comm]
  | some next => simp

/-! ### The four ways in which a search ends -/

theorem nextRun_of_canOccur_eq_false (h : planner.schedule.canOccur = false) :
    planner.nextRun start = .error (.noNextRun (Instant.ofMoment start.moment) 0) := by
  simp [nextRun_eq_error_iff, search, Schedule.search, h, Outcome.next?, Outcome.tested]

theorem nextRun_of_next?_eq_none (h : start.moment.next? = none) :
    planner.nextRun start = .error (.noNextRun (Instant.ofMoment start.moment) 0) := by
  by_cases hcan : planner.schedule.canOccur = true
  · simp [nextRun_eq_error_iff, search, Schedule.search, hcan, h, Outcome.next?, Outcome.tested]
  · exact nextRun_of_canOccur_eq_false (Bool.eq_false_iff.mpr hcan)

theorem search_of_next?_eq_some (hcan : planner.schedule.canOccur = true)
    (hnext : start.moment.next? = some candidate) :
    planner.search start.moment =
      .searched (planner.schedule.walk planner.settings.ceiling.toNat candidate) := by
  simp [search, Schedule.search, hcan, hnext]

section Searched

variable (hs : planner.schedule.WellFormed) (hcan : planner.schedule.canOccur = true)
  (hnext : start.moment.next? = some candidate)
  (h : planner.schedule.IsFirstFrom candidate target?)
include hs hcan hnext h

theorem tested_search :
    (planner.search start.moment).tested =
      min planner.settings.ceiling.toNat (planner.schedule.cost candidate target?) := by
  rw [search_of_next?_eq_some hcan hnext]
  exact (hs.isCut_walk h _).tested_eq

theorem next?_search :
    (planner.search start.moment).next? =
      if planner.schedule.cost candidate target? ≤ planner.settings.ceiling.toNat
      then target? else none := by
  rw [search_of_next?_eq_some hcan hnext]
  exact (hs.isCut_walk h _).found?_eq

theorem nextRun_of_cost_le {target : Moment} (htarget : target? = some target)
    (hcost : planner.schedule.cost candidate target? ≤ planner.settings.ceiling.toNat) :
    planner.nextRun start = .ok target := by
  have hfound := next?_search hs hcan hnext h
  rw [if_pos hcost, htarget] at hfound
  exact nextRun_eq_ok_iff.mpr hfound

theorem nextRun_of_not_found
    (hnot : target? = none ∨
      planner.settings.ceiling.toNat < planner.schedule.cost candidate target?) :
    planner.nextRun start = .error (.noNextRun (Instant.ofMoment start.moment)
      (min planner.settings.ceiling.toNat (planner.schedule.cost candidate target?))) := by
  have hfound := next?_search hs hcan hnext h
  have htested := tested_search hs hcan hnext h
  have hnone : (planner.search start.moment).next? = none := by
    rw [hfound]
    rcases hnot with rfl | hlt
    · exact ite_self none
    · exact if_neg (Nat.not_le.mpr hlt)
  exact nextRun_eq_error_iff.mpr ⟨hnone, by rw [htested]⟩

end Searched

/-! ### Searches that find a run -/

/-- Whether a search from after an instant, stopped by no ceiling, gets to a run and how
    many candidates it tests on its way. -/
def Reaches (planner : Planner) (start : Instant) (run : Moment) (count : Nat) : Prop :=
  ∃ candidate, start.moment.next? = some candidate ∧
    planner.schedule.IsFirstFrom candidate (some run) ∧
    planner.schedule.cost candidate (some run) = count

section Reaches

variable (hs : planner.schedule.WellFormed) {run : Moment} {count : Nat}
include hs

theorem Reaches.canOccur (h : planner.Reaches start run count) :
    planner.schedule.canOccur = true := by
  obtain ⟨candidate, _, hfirst, _⟩ := h
  have hpermits := (hfirst.permitted run rfl).2
  exact hs.canOccur_of_isScheduled (Schedule.permits_reading_iff.mp hpermits).1

/-- A run is found when the ceiling allows for the candidates on the way to it. -/
theorem nextRun_eq_ok_iff_reaches :
    planner.nextRun start = .ok run ↔
      ∃ count ≤ planner.settings.ceiling.toNat, planner.Reaches start run count := by
  constructor
  · intro h
    by_cases hcan : planner.schedule.canOccur = true
    · cases hnext : start.moment.next? with
      | none =>
        rw [nextRun_of_next?_eq_none hnext] at h
        cases h
      | some candidate =>
        obtain ⟨target?, htarget⟩ := planner.schedule.exists_isFirstFrom candidate
        by_cases hnot : target? = none ∨
            planner.settings.ceiling.toNat < planner.schedule.cost candidate target?
        · rw [nextRun_of_not_found hs hcan hnext htarget hnot] at h
          cases h
        · push Not at hnot
          obtain ⟨target, rfl⟩ := Option.ne_none_iff_exists'.mp hnot.1
          rw [nextRun_of_cost_le hs hcan hnext htarget rfl hnot.2] at h
          cases h
          exact ⟨_, hnot.2, candidate, hnext, htarget, rfl⟩
    · rw [nextRun_of_canOccur_eq_false (Bool.eq_false_iff.mpr hcan)] at h
      cases h
  · rintro ⟨count, hcount, hreaches⟩
    have hcan := hreaches.canOccur hs
    obtain ⟨candidate, hnext, hfirst, rfl⟩ := hreaches
    exact nextRun_of_cost_le hs hcan hnext hfirst rfl hcount

/-- Under any ceiling, what a search finds is the first run. -/
theorem isLeast_of_nextRun (h : planner.nextRun start = .ok run) :
    IsLeast (planner.schedule.runsAfter start) run := by
  obtain ⟨_, _, candidate, hnext, hfirst, _⟩ := (nextRun_eq_ok_iff_reaches hs).mp h
  rw [Schedule.runsAfter_eq hnext]
  exact Schedule.isFirstFrom_some_iff.mp hfirst

theorem Reaches.tested_search (h : planner.Reaches start run count)
    (hcount : count ≤ planner.settings.ceiling.toNat) :
    (planner.search start.moment).tested = count := by
  have hcan := h.canOccur hs
  obtain ⟨candidate, hnext, hfirst, rfl⟩ := h
  rw [Planner.tested_search hs hcan hnext hfirst, Nat.min_eq_right hcount]

end Reaches

/-! ### The answer -/

/-- Under a ceiling of at least 5000 the answer is the first run there is. -/
theorem nextRun_isLeast_or_empty (hs : planner.schedule.WellFormed)
    (hceiling : 5000 ≤ planner.settings.ceiling.toNat) (start : Instant) :
    (∃ next, planner.nextRun start = .ok next ∧
        IsLeast (planner.schedule.runsAfter start) next) ∨
      (∃ tested, planner.nextRun start =
          .error (.noNextRun (Instant.ofMoment start.moment) tested)) ∧
        planner.schedule.runsAfter start = ∅ := by
  by_cases hcan : planner.schedule.canOccur = true
  · cases hnext : start.moment.next? with
    | none =>
      exact Or.inr ⟨⟨0, nextRun_of_next?_eq_none hnext⟩, Schedule.runsAfter_eq_empty hnext⟩
    | some candidate =>
      rw [Schedule.runsAfter_eq hnext]
      obtain ⟨target?, h⟩ := planner.schedule.exists_isFirstFrom candidate
      cases target? with
      | none =>
        refine Or.inr ⟨⟨_, nextRun_of_not_found hs hcan hnext h (Or.inl rfl)⟩, ?_⟩
        refine Set.eq_empty_of_forall_notMem fun moment hmem => ?_
        exact Schedule.isFirstFrom_none_iff.mp h moment hmem.1 hmem.2
      | some target =>
        refine Or.inl ⟨target, nextRun_of_cost_le hs hcan hnext h rfl ?_, ?_⟩
        · exact (hs.cost_le h).trans hceiling
        · exact Schedule.isFirstFrom_some_iff.mp h
  · have hfalse := Bool.eq_false_iff.mpr hcan
    exact Or.inr ⟨⟨0, nextRun_of_canOccur_eq_false hfalse⟩,
      hs.runsAfter_eq_empty_of_canOccur hfalse⟩

section Answers

variable (hs : planner.schedule.WellFormed) (hceiling : 5000 ≤ planner.settings.ceiling.toNat)
include hs hceiling

theorem runsAfter_eq_empty_of_nextRun {failure : Failure}
    (h : planner.nextRun start = .error failure) : planner.schedule.runsAfter start = ∅ := by
  rcases nextRun_isLeast_or_empty hs hceiling start with ⟨_, hfound, _⟩ | ⟨_, hempty⟩
  · rw [h] at hfound
    cases hfound
  · exact hempty

theorem exists_nextRun (h : (planner.schedule.runsAfter start).Nonempty) :
    ∃ next, planner.nextRun start = .ok next := by
  rcases nextRun_isLeast_or_empty hs hceiling start with ⟨next, hnext, _⟩ | ⟨_, hempty⟩
  · exact ⟨next, hnext⟩
  · exact absurd hempty h.ne_empty

theorem exists_nextRun_error (h : planner.schedule.runsAfter start = ∅) :
    ∃ tested, planner.nextRun start =
      .error (.noNextRun (Instant.ofMoment start.moment) tested) := by
  rcases nextRun_isLeast_or_empty hs hceiling start with ⟨next, _, hleast⟩ | ⟨herror, _⟩
  · exact absurd h (Set.nonempty_of_mem hleast.1).ne_empty
  · exact herror

end Answers

/-- **Exactness.**  A planner that may test 5000 candidates answers with the first
    permitted second that is later than an instant, whenever there is one, and otherwise
    says so. -/
theorem nextRun_eq_ok_iff_isLeast {text : String}
    (h : Schedule.parse text = .ok planner.schedule)
    (hceiling : 5000 ≤ planner.settings.ceiling.toNat) (start : Instant) :
    (∀ next, planner.nextRun start = .ok next ↔
        IsLeast (planner.schedule.runsAfter start) next) ∧
      ((∃ next, planner.nextRun start = .ok next) ↔
        (planner.schedule.runsAfter start).Nonempty) ∧
      ((∃ tested, planner.nextRun start =
          .error (.noNextRun (Instant.ofMoment start.moment) tested)) ↔
        planner.schedule.runsAfter start = ∅) := by
  have hs := Schedule.wellFormed_of_parse h
  refine ⟨fun next => ⟨isLeast_of_nextRun hs, fun hleast => ?_⟩,
    ⟨?_, exists_nextRun hs hceiling⟩, ⟨?_, exists_nextRun_error hs hceiling⟩⟩
  · obtain ⟨found, hfound⟩ := exists_nextRun hs hceiling ⟨next, hleast.1⟩
    rw [hfound, (isLeast_of_nextRun hs hfound).unique hleast]
  · rintro ⟨next, hnext⟩
    exact ⟨next, (isLeast_of_nextRun hs hnext).1⟩
  · rintro ⟨tested, herror⟩
    exact runsAfter_eq_empty_of_nextRun hs hceiling herror

/-- Mondays that are a 29 February: the first after March 2024 is twenty years away. -/
theorem isLeast_leapMonday :
    let planner := ofSchedule ⟨[0], [0], [0], [29], [2], [1]⟩
    let start : Instant := ⟨⟨⟨2024, 3, 1, by decide⟩, ⟨8, 0, 0, by decide⟩⟩, 500, by decide⟩
    Schedule.parse "0 0 0 29 feb mon" = .ok planner.schedule ∧
      5000 ≤ planner.settings.ceiling.toNat ∧
      IsLeast (planner.schedule.runsAfter start)
        ⟨⟨2044, 2, 29, by decide⟩, ⟨0, 0, 0, by decide⟩⟩ := by
  intro planner start
  have h : Schedule.parse "0 0 0 29 feb mon" = .ok planner.schedule := by decide +kernel
  have hceiling : 5000 ≤ planner.settings.ceiling.toNat := by decide
  refine ⟨h, hceiling, ?_⟩
  exact ((nextRun_eq_ok_iff_isLeast h hceiling start).1 _).mp (by decide +kernel)

/-- **Cost.**  When a schedule can occur and the calendar goes on, a search tests as many
    candidates as its cost says or as its ceiling allows, whichever is less, and it finds
    the first permitted second from the candidate on unless the ceiling is below the
    cost. -/
theorem nextRun_eq_of_cost (planner : Planner) (start : Instant) {text : String}
    (h : Schedule.parse text = .ok planner.schedule) (hcan : planner.schedule.canOccur = true)
    (hnext : start.moment.next? = some candidate) :
    (∀ target, IsLeast {m | candidate ≤ m ∧ planner.schedule.permits m.reading = true} target →
      (planner.search start.moment).tested =
          min planner.settings.ceiling.toNat (planner.schedule.cost candidate (some target)) ∧
        planner.nextRun start =
          if planner.schedule.cost candidate (some target) ≤ planner.settings.ceiling.toNat
          then .ok target
          else .error (.noNextRun (Instant.ofMoment start.moment)
            planner.settings.ceiling.toNat)) ∧
      ({m | candidate ≤ m ∧ planner.schedule.permits m.reading = true} = ∅ →
        planner.nextRun start = .error (.noNextRun (Instant.ofMoment start.moment)
          (min planner.settings.ceiling.toNat (planner.schedule.cost candidate none)))) := by
  have hs := Schedule.wellFormed_of_parse h
  constructor
  · intro target hleast
    have hfirst := Schedule.isFirstFrom_some_iff.mpr hleast
    refine ⟨tested_search hs hcan hnext hfirst, ?_⟩
    split
    case isTrue hcost => exact nextRun_of_cost_le hs hcan hnext hfirst rfl hcost
    case isFalse hcost =>
      have hlt := Nat.not_le.mp hcost
      rw [nextRun_of_not_found hs hcan hnext hfirst (Or.inr hlt), Nat.min_eq_left hlt.le]
  · intro hempty
    refine nextRun_of_not_found hs hcan hnext ?_ (Or.inl rfl)
    refine Schedule.isFirstFrom_none_iff.mpr fun moment hle hpermits => ?_
    exact Set.eq_empty_iff_forall_notMem.mp hempty moment ⟨hle, hpermits⟩

/-- Midnight of every Friday the thirteenth. -/
def fridayThirteenth : Schedule :=
  ⟨[0], [0], [0], [13], [1, 2, 3, 4, 5, 6, 7, 8, 9, 10, 11, 12], [5]⟩

/-- Of the thirteenths of 2024, the ninth is the first Friday: ten candidates lead to it
    from New Year on, and a ceiling of nine is too low.  The last thirteenth of the
    calendar is no Friday, and after it a single candidate is all there is. -/
theorem cost_fridayThirteenth :
    let start := Instant.ofMoment ⟨⟨2024, 1, 1, by decide⟩, ⟨0, 0, 0, by decide⟩⟩
    let candidate : Moment := ⟨⟨2024, 1, 1, by decide⟩, ⟨0, 0, 1, by decide⟩⟩
    let friday : Moment := ⟨⟨2024, 9, 13, by decide⟩, ⟨0, 0, 0, by decide⟩⟩
    let last := Instant.ofMoment ⟨⟨262142, 12, 13, by decide⟩, ⟨0, 0, 0, by decide⟩⟩
    let after : Moment := ⟨⟨262142, 12, 13, by decide⟩, ⟨0, 0, 1, by decide⟩⟩
    let nine : Planner := ⟨fridayThirteenth, ⟨9⟩, by decide⟩
    fridayThirteenth.cost candidate (some friday) = 10 ∧
      nine.nextRun start = .error (.noNextRun start 9) ∧
      fridayThirteenth.cost after none = 1 ∧
      nine.nextRun last = .error (.noNextRun last 1) := by
  intro start candidate friday last after nine
  have h : Schedule.parse "0 0 0 13 * fri" = .ok fridayThirteenth := by decide +kernel
  have hcan : fridayThirteenth.canOccur = true := by decide
  have hnext : start.moment.next? = some candidate := by decide +kernel
  have hlast : last.moment.next? = some after := by decide +kernel
  let planner := ofSchedule fridayThirteenth
  have hs : planner.schedule.WellFormed := Schedule.wellFormed_of_parse h
  have hceiling : 5000 ≤ planner.settings.ceiling.toNat := by decide
  have hcost : ∀ tested cost, tested < 5000 →
      tested = min planner.settings.ceiling.toNat cost → cost = tested := by
    intro tested cost hfew htested
    omega
  have hleast : IsLeast {m | candidate ≤ m ∧ fridayThirteenth.permits m.reading = true} friday := by
    have hfound : planner.nextRun start = .ok friday := by decide +kernel
    rw [← Schedule.runsAfter_eq hnext]
    exact isLeast_of_nextRun hs hfound
  have hten : fridayThirteenth.cost candidate (some friday) = 10 := by
    have htested := ((nextRun_eq_of_cost planner start h hcan hnext).1 friday hleast).1
    have hsearch : (planner.search start.moment).tested = 10 := by decide +kernel
    exact hcost 10 _ (by decide) (hsearch.symm.trans htested)
  have hone : planner.nextRun last = .error (.noNextRun last 1) := by decide +kernel
  have hempty : {m | after ≤ m ∧ fridayThirteenth.permits m.reading = true} = ∅ := by
    rw [← Schedule.runsAfter_eq hlast]
    exact runsAfter_eq_empty_of_nextRun hs hceiling hone
  have hrest : fridayThirteenth.cost after none = 1 := by
    have herror := (nextRun_eq_of_cost planner last h hcan hlast).2 hempty
    rw [hone, Except.error.injEq, Failure.noNextRun.injEq] at herror
    exact hcost 1 _ (by decide) herror.2
  refine ⟨hten, ?_, hrest, ?_⟩
  · rw [((nextRun_eq_of_cost nine start h hcan hnext).1 friday hleast).2, hten]
    rfl
  · rw [(nextRun_eq_of_cost nine last h hcan hlast).2 hempty, hrest]
    rfl

/-- The pre-check is right both ways, although it knows of no weekdays. -/
theorem canOccur_decides {text : String} {schedule : Schedule}
    (h : Schedule.parse text = .ok schedule) :
    (schedule.canOccur = false →
      (∀ instant : Instant, ¬ schedule.permits instant.moment.reading = true) ∧
        ∀ planner : Planner, planner.schedule = schedule → ∀ start : Instant,
          planner.nextRun start = .error (.noNextRun (Instant.ofMoment start.moment) 0)) ∧
      (schedule.canOccur = true → ∀ start : Instant, start.moment.date.year ≤ 262102 →
        ∃ next, (ofSchedule schedule).nextRun start = .ok next ∧
          next.date.year ≤ start.moment.date.year + 40) := by
  have hs : (ofSchedule schedule).schedule.WellFormed := Schedule.wellFormed_of_parse h
  have hceiling : 5000 ≤ defaultCeiling.toNat := by decide
  constructor
  · intro hcan
    refine ⟨fun instant => hs.not_permits_of_canOccur_eq_false hcan _, ?_⟩
    rintro planner rfl start
    exact nextRun_of_canOccur_eq_false hcan
  · intro hcan start hyear
    obtain ⟨⟨hfirst, _⟩, _⟩ := start.moment.date.isDate
    have hlast : start.moment.date.year + 40 ≤ lastYear := Int.add_le_add_right hyear 40
    obtain ⟨moment, hpermits, hlt, hle⟩ :=
      hs.exists_permits_within hcan (Int.le_add_one hfirst) hlast
    have hafter : start.moment < moment :=
      Moment.lt_iff.mpr (Or.inl (Date.lt_iff.mpr (Or.inl hlt)))
    have hmem : moment ∈ schedule.runsAfter start :=
      ⟨Instant.lt_ofMoment_iff.mpr hafter, hpermits⟩
    obtain ⟨next, hnext⟩ := exists_nextRun hs hceiling ⟨_, hmem⟩
    have hleast := isLeast_of_nextRun hs hnext
    have hdate := Moment.date_le (hleast.2 hmem)
    exact ⟨next, hnext, (Date.year_le hdate).trans hle⟩

/-- After a Monday that is a 29 February no 30 February comes, and the next such Monday
    comes within forty years even across a common century. -/
theorem canOccur_leapDays :
    let start := Instant.ofMoment ⟨⟨2072, 2, 29, by decide⟩, ⟨8, 0, 0, by decide⟩⟩
    (ofSchedule ⟨[0], [0], [0], [30], [2], [0, 1, 2, 3, 4, 5, 6]⟩).nextRun start =
        .error (.noNextRun start 0) ∧
      ∃ next, (ofSchedule ⟨[0], [0], [0], [29], [2], [1]⟩).nextRun start = .ok next ∧
        next.date.year ≤ 2072 + 40 := by
  intro start
  have hnever : Schedule.parse "0 0 0 30 feb *" =
      .ok ⟨[0], [0], [0], [30], [2], [0, 1, 2, 3, 4, 5, 6]⟩ := by
    decide +kernel
  have hleap : Schedule.parse "0 0 0 29 feb mon" = .ok ⟨[0], [0], [0], [29], [2], [1]⟩ := by
    decide +kernel
  constructor
  · exact ((canOccur_decides hnever).1 (by decide)).2 (ofSchedule _) rfl start
  · exact (canOccur_decides hleap).2 (by decide) start (by decide)

end Planner

end Cron
