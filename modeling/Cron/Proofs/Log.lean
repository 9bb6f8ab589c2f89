/-
  Cron/Proofs/Log.lean
  ====================
  **What the log of a search tells.**

  The events of a search are its carries in order and then one event for what came of it
  (`events_search`).  That event repeats the answer of the planner and the number of the
  candidates, which also follows from the number of the carries: a run that is found is one
  candidate more than there are carries, and otherwise the two numbers are equal unless the
  leap days have run out.
-/
import Cron.Log
import Cron.Proofs.Planner
import Cron.Proofs.Search.Trail

namespace Cron

open Cron.Calendar

/-- An event is written at a level and with a message. -/
structure Event.Says (event : Event) (level : Level) (message : String) : Prop where
  level_eq : event.level = level
  message_eq : event.message = message

namespace Planner

/-- The candidates that a search tests when it begins with a given one. -/
def candidates (planner : Planner) (candidate : Moment) : List Moment :=
  planner.schedule.candidates planner.settings.ceiling.toNat candidate

/-- The last candidate has no successor, and the schedule is one of leap days: its only
    month is February and its smallest day the 29th. -/
def RunsOutOfLeapDays (planner : Planner) (candidate : Moment) : Prop :=
  (∃ last ∈ (planner.candidates candidate).getLast?, planner.schedule.successor? last = none) ∧
    planner.schedule.values .month = [2] ∧ planner.schedule.first .day = 29

/-- What a list of carries and a last event have to say of the search after an instant, when
    the second after it is a given candidate. -/
structure Tells (planner : Planner) (start : Instant) (candidate : Moment)
    (carries : List Carry) (last : Event) : Prop where
  traced : ∀ carry ∈ carries, (Event.carried carry).Says .trace ("Carry into " ++ carry.unit)
  resolved : ∀ run, planner.nextRun start = .ok run →
    (∃ tested, last = .resolved start.moment run tested) ∧ last.Says .debug "Resolved next run"
  notFound : ∀ failure, planner.nextRun start = .error failure →
    (∃ tested, failure = .noNextRun (Instant.ofMoment start.moment) tested ∧
      last = .notFound start.moment tested) ∧ last.Says .warn "No next run found"
  tested_resolved : ∀ run tested, last = .resolved start.moment run tested →
    tested = (planner.candidates candidate).length ∧ tested = carries.length + 1
  tested_notFound : ∀ tested, last = .notFound start.moment tested →
    tested = (planner.candidates candidate).length ∧
      (planner.RunsOutOfLeapDays candidate → tested = carries.length + 1) ∧
      (¬ planner.RunsOutOfLeapDays candidate → tested = carries.length)
  alone : ∀ carry ∈ carries, carry.movesTime = true → carries = [carry]

variable {planner : Planner} {start : Instant} {candidate run : Moment} {tested : Nat}

theorem says_carried (carry : Carry) :
    (Event.carried carry).Says .trace ("Carry into " ++ carry.unit) :=
  ⟨rfl, by cases carry <;> rfl⟩

section Searched

variable {walk : Walk} (h : planner.search start.moment = .searched walk)
include h

/-- The last event of a search gives the answer of the planner. -/
theorem lastEvent_of_nextRun_eq_ok (hrun : planner.nextRun start = .ok run) :
    walk.lastEvent start.moment = .resolved start.moment run walk.tested := by
  rw [nextRun_eq_ok_iff, h] at hrun
  have hfound : walk.found? = some run := hrun
  rw [Walk.lastEvent, hfound]

theorem lastEvent_of_nextRun_eq_error {failure : Failure}
    (hfailure : planner.nextRun start = .error failure) :
    failure = .noNextRun (Instant.ofMoment start.moment) walk.tested ∧
      walk.lastEvent start.moment = .notFound start.moment walk.tested := by
  rw [nextRun_eq_error_iff, h] at hfailure
  have hfound : walk.found? = none := hfailure.1
  refine ⟨hfailure.2, ?_⟩
  rw [Walk.lastEvent, hfound]

end Searched

/-! ### Candidates and carries -/

/-- The number in an event for a run that was found. -/
theorem tested_of_lastEvent_eq_resolved {walk : Walk}
    (h : walk.lastEvent start.moment = .resolved start.moment run tested) :
    walk.found? = some run ∧ walk.tested = tested := by
  unfold Walk.lastEvent at h
  split at h
  case h_1 next hfound =>
    simp only [Event.resolved.injEq, true_and] at h
    exact ⟨hfound.trans (congrArg some h.1), h.2⟩
  case h_2 => cases h

theorem tested_of_lastEvent_eq_notFound {walk : Walk}
    (h : walk.lastEvent start.moment = .notFound start.moment tested) :
    walk.found? = none ∧ walk.tested = tested := by
  unfold Walk.lastEvent at h
  split at h
  case h_1 => cases h
  case h_2 hfound =>
    simp only [Event.notFound.injEq, true_and] at h
    exact ⟨hfound, h⟩

/-- The carries of a walk and its last event tell of the search. -/
theorem tells_walk (hs : planner.schedule.WellFormed) (hcan : planner.schedule.canOccur = true)
    (hnext : start.moment.next? = some candidate) :
    let walk := planner.schedule.walk planner.settings.ceiling.toNat candidate
    planner.Tells start candidate walk.carries (walk.lastEvent start.moment) := by
  intro walk
  have hsearch : planner.search start.moment = .searched walk :=
    search_of_next?_eq_some hcan hnext
  have hcandidates : (planner.candidates candidate).length = walk.tested :=
    Schedule.length_candidates _ _ _
  constructor
  case traced => exact fun carry _ => says_carried carry
  case resolved =>
    intro run hrun
    rw [lastEvent_of_nextRun_eq_ok hsearch hrun]
    exact ⟨⟨_, rfl⟩, rfl, rfl⟩
  case notFound =>
    intro failure hfailure
    obtain ⟨rfl, hlast⟩ := lastEvent_of_nextRun_eq_error hsearch hfailure
    rw [hlast]
    exact ⟨⟨_, rfl, rfl⟩, rfl, rfl⟩
  case tested_resolved =>
    intro run tested hlast
    obtain ⟨hfound, rfl⟩ := tested_of_lastEvent_eq_resolved hlast
    exact ⟨hcandidates.symm, Schedule.tested_walk_of_found hfound⟩
  case tested_notFound =>
    intro tested hlast
    obtain ⟨hfound, rfl⟩ := tested_of_lastEvent_eq_notFound hlast
    have htested := Schedule.tested_walk_of_not_found hfound
    refine ⟨hcandidates.symm, fun hout => ?_, fun hout => ?_⟩
    · rwa [(hs.endsWithoutCarry_iff hcan).mpr hout] at htested
    · rwa [Bool.eq_false_iff.mpr fun hends => hout ((hs.endsWithoutCarry_iff hcan).mp hends)]
        at htested
  case alone => exact fun carry hmem hmoves => hs.eq_singleton_of_movesTime hmem hmoves

/-- **The log of a search.**  A schedule that never occurs is warned of and not searched, and
    after the last second of the calendar nothing is logged.  In all other cases the events
    are the carries and one last event, and together they tell of the search. -/
theorem events_search (planner : Planner) {text : String}
    (h : Schedule.parse text = .ok planner.schedule) (start : Instant) :
    (planner.schedule.canOccur = false →
        (planner.search start.moment).events start.moment = [.neverOccurs start.moment] ∧
          (Event.neverOccurs start.moment).Says .warn
            "Schedule day/month combination never occurs") ∧
      (planner.schedule.canOccur = true → IsTop start.moment →
        (planner.search start.moment).events start.moment = []) ∧
      (planner.schedule.canOccur = true → ¬ IsTop start.moment →
        ∃ candidate, start.moment.next? = some candidate ∧
          ∃ carries last,
            (planner.search start.moment).events start.moment =
              carries.map Event.carried ++ [last] ∧
            planner.Tells start candidate carries last) := by
  have hs := Schedule.wellFormed_of_parse h
  refine ⟨fun hcan => ⟨?_, rfl, rfl⟩, fun hcan htop => ?_, fun hcan htop => ?_⟩
  · simp [search, Schedule.search, hcan, Outcome.events]
  · have hnext := Moment.next?_eq_none_iff_isTop.mpr htop
    simp [search, Schedule.search, hcan, hnext, Outcome.events]
  · have hsome := Moment.next?_eq_none_iff_isTop.not.mpr htop
    obtain ⟨candidate, hnext⟩ := Option.ne_none_iff_exists'.mp hsome
    refine ⟨candidate, hnext, _, _, ?_, tells_walk hs hcan hnext⟩
    rw [search_of_next?_eq_some hcan hnext, Outcome.events]

/-- Carries and a last event can be told apart in a log. -/
theorem eq_of_map_carried_append {known carries : List Carry} {event last : Event}
    (h : carries.map Event.carried ++ [last] = known.map Event.carried ++ [event]) :
    carries = known ∧ last = event := by
  obtain ⟨hcarries, hlast⟩ := List.append_inj' h rfl
  have hinj : Function.Injective Event.carried := fun _ _ => Event.carried.inj
  exact ⟨List.map_injective_iff.mpr hinj hcarries, List.singleton_inj.mp hlast⟩

/-- Ten candidates lead to the first Friday the thirteenth of 2024 and nine carries from one
    to the next.  After the last leap day of the calendar one candidate is tested and no
    carry is taken. -/
theorem events_fridayThirteenth_leapDays :
    let ten : Planner := ⟨fridayThirteenth, ⟨10⟩, by decide⟩
    let start := Instant.ofMoment ⟨⟨2024, 1, 1, by decide⟩, ⟨0, 0, 0, by decide⟩⟩
    let candidate : Moment := ⟨⟨2024, 1, 1, by decide⟩, ⟨0, 0, 1, by decide⟩⟩
    let friday : Moment := ⟨⟨2024, 9, 13, by decide⟩, ⟨0, 0, 0, by decide⟩⟩
    let carries := .day 13 :: [2, 3, 4, 5, 6, 7, 8, 9].map fun month => .month month 13
    let leap := ofSchedule ⟨[0], [0], [0], [29], [2], [0, 1, 2, 3, 4, 5, 6]⟩
    let spring := Instant.ofMoment ⟨⟨262140, 3, 1, by decide⟩, ⟨0, 0, 0, by decide⟩⟩
    let after : Moment := ⟨⟨262140, 3, 1, by decide⟩, ⟨0, 0, 1, by decide⟩⟩
    ten.Tells start candidate carries (.resolved start.moment friday 10) ∧
      leap.Tells spring after [] (.notFound spring.moment 1) := by
  intro ten start candidate friday carries leap spring after
  have hten : Schedule.parse "0 0 0 13 * fri" = .ok ten.schedule := by decide +kernel
  have hleap : Schedule.parse "0 0 0 29 feb *" = .ok leap.schedule := by decide +kernel
  constructor
  · have htop : ¬ IsTop start.moment := fun htop => absurd (htop friday) (by decide +kernel)
    have hlog : (ten.search start.moment).events start.moment =
        carries.map Event.carried ++ [.resolved start.moment friday 10] := by decide +kernel
    have hnext : start.moment.next? = some candidate := by decide +kernel
    obtain ⟨first, hfirst, taken, last, hevents, htells⟩ :=
      (events_search ten hten start).2.2 (by decide) htop
    obtain rfl : candidate = first := Option.some.inj (hnext.symm.trans hfirst)
    obtain ⟨rfl, rfl⟩ := eq_of_map_carried_append (hevents.symm.trans hlog)
    exact htells
  · have htop : ¬ IsTop spring.moment := fun htop => absurd (htop after) (by decide +kernel)
    have hlog : (leap.search spring.moment).events spring.moment =
        [].map Event.carried ++ [.notFound spring.moment 1] := by decide +kernel
    have hnext : spring.moment.next? = some after := by decide +kernel
    obtain ⟨first, hfirst, taken, last, hevents, htells⟩ :=
      (events_search leap hleap spring).2.2 (by decide) htop
    obtain rfl : after = first := Option.some.inj (hnext.symm.trans hfirst)
    obtain ⟨rfl, rfl⟩ := eq_of_map_carried_append (hevents.symm.trans hlog)
    exact htells

end Planner

end Cron
