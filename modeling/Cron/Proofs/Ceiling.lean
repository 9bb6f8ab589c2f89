/-
  Cron/Proofs/Ceiling.lean
  ========================
  **Nothing is searched under a ceiling of zero.**

  Settings come from a document, from the defaults or from the word that a caller names,
  and only some of these ways check the ceiling.  But no planner is made with a ceiling of
  zero, and no request for a run changes the planner that is asked.  So a search that tested
  nothing had nothing to test (`Planner.counts`): it was not the ceiling that ended it.

  The machine counts candidates in a 64-bit word, which could come back to zero.  It does
  not: the word is raised only while it is below the ceiling (`Schedule.countedWalk_eq`).
-/
import Cron.Proofs.Planner
import Cron.Proofs.Record
import Cron.Runs

namespace Cron

open Cron.Calendar

/-! ### Ceilings -/

theorem one_le_toNat_iff {word : UInt64} : 1 ≤ word.toNat ↔ word ≠ 0 := by
  rw [Nat.one_le_iff_ne_zero, Ne, Ne, ← UInt64.toNat_inj]
  rfl

theorem Settings.check_eq_ok_iff {settings result : Settings} :
    settings.check = .ok result ↔ settings.ceiling ≠ 0 ∧ settings = result := by
  rw [check, ite_error_eq_ok_iff, Except.ok.injEq]

/-- Only settings with a positive ceiling come out of a document. -/
theorem Settings.ceiling_ne_zero_of_ofJson {text : String} {settings : Settings}
    (h : ofJson text = .ok settings) : settings.ceiling ≠ 0 := by
  obtain ⟨read, _, hcheck⟩ := bind_eq_ok_iff.mp h
  obtain ⟨hceiling, rfl⟩ := check_eq_ok_iff.mp hcheck
  exact hceiling

/-- A planner is made of its schedule and its settings, and of no others. -/
theorem Planner.withSettings_eq_ok_iff {schedule : Schedule} {settings : Settings}
    {planner : Planner} :
    withSettings schedule settings = .ok planner ↔
      planner.schedule = schedule ∧ planner.settings = settings := by
  unfold withSettings
  constructor
  · intro h
    split at h
    case isTrue => cases h
    case isFalse =>
      cases h
      exact ⟨rfl, rfl⟩
  · rintro ⟨rfl, rfl⟩
    exact dif_neg planner.positive

theorem Planner.exists_withSettings_iff {schedule : Schedule} {settings : Settings} :
    (∃ planner, withSettings schedule settings = .ok planner) ↔ settings.ceiling ≠ 0 := by
  simp only [withSettings_eq_ok_iff]
  constructor
  · rintro ⟨planner, _, rfl⟩
    exact planner.positive
  · intro h
    exact ⟨⟨schedule, settings, h⟩, rfl, rfl⟩

/-! ### The count of candidates -/

namespace Schedule

variable {schedule : Schedule} {ceiling : Nat} {candidate : Moment}

/-- A walk that may test a candidate tests the first one. -/
theorem one_le_tested_walk (h : 1 ≤ ceiling) : 1 ≤ (schedule.walk ceiling candidate).tested := by
  fun_cases schedule.walk ceiling candidate with
  | case1 candidate => exact h
  | case2 ceiling candidate hpermits => exact le_rfl
  | case3 ceiling candidate hrejects hcarry => exact le_rfl
  | case4 ceiling candidate hrejects carry hcarry hfollow => exact le_rfl
  | case5 ceiling candidate hrejects carry hcarry next hfollow rest => exact Nat.le_add_left 1 _

theorem toNat_add_one_of_lt {counter ceiling : UInt64} (h : counter < ceiling) :
    (counter + 1).toNat = counter.toNat + 1 := by
  have hlt := UInt64.lt_iff_toNat_lt.mp h
  have hsize := ceiling.toNat_lt
  rw [UInt64.toNat_add, UInt64.toNat_one]
  exact Nat.mod_eq_of_lt (by omega)

theorem sub_toNat_add_one_lt {counter ceiling : UInt64} (h : counter < ceiling) :
    ceiling.toNat - (counter + 1).toNat < ceiling.toNat - counter.toNat := by
  have hlt := UInt64.lt_iff_toNat_lt.mp h
  rw [toNat_add_one_of_lt h]
  omega

/-- The walk from a candidate with its candidates counted in a word.  The word is raised
    before each test, as long as it is below the ceiling. -/
def countedWalk (schedule : Schedule) (ceiling counter : UInt64) (candidate : Moment) :
    UInt64 × Option Moment :=
  if h : counter < ceiling then
    if schedule.permits candidate.reading then (counter + 1, some candidate)
    else match schedule.successor? candidate with
      | none => (counter + 1, none)
      | some next =>
        have : ceiling.toNat - (counter + 1).toNat < ceiling.toNat - counter.toNat :=
          sub_toNat_add_one_lt h
        schedule.countedWalk ceiling (counter + 1) next
  else (counter, none)
termination_by ceiling.toNat - counter.toNat

/-- The word counts the candidates that are tested, and never overflows.  The induction is
    on what is left below the ceiling. -/
theorem countedWalk_eq (schedule : Schedule) {ceiling counter : UInt64} {left : Nat}
    (candidate : Moment) (h : counter.toNat + left = ceiling.toNat) :
    (schedule.countedWalk ceiling counter candidate).1.toNat =
        counter.toNat + (schedule.walk left candidate).tested ∧
      (schedule.countedWalk ceiling counter candidate).2 =
        (schedule.walk left candidate).found? := by
  induction left generalizing counter candidate with
  | zero =>
    have hnot : ¬ counter < ceiling := by
      rw [UInt64.lt_iff_toNat_lt]
      omega
    rw [countedWalk, dif_neg hnot]
    exact ⟨rfl, rfl⟩
  | succ left ih =>
    have hlt : counter < ceiling := by
      rw [UInt64.lt_iff_toNat_lt]
      omega
    have hstep := toNat_add_one_of_lt hlt
    rw [countedWalk, dif_pos hlt, walk]
    by_cases hpermits : schedule.permits candidate.reading = true
    · rw [if_pos hpermits, if_pos hpermits]
      exact ⟨hstep, rfl⟩
    · rw [if_neg hpermits, if_neg hpermits, successor?]
      cases schedule.carry? candidate with
      | none => exact ⟨hstep, rfl⟩
      | some carry =>
        rw [Option.bind_some]
        dsimp only
        cases schedule.follow? candidate carry with
        | none => exact ⟨hstep, rfl⟩
        | some next =>
          have hleft : (counter + 1).toNat + left = ceiling.toNat := by omega
          obtain ⟨hcount, hfound⟩ := ih next hleft
          refine ⟨?_, hfound⟩
          change (schedule.countedWalk ceiling (counter + 1) next).1.toNat =
            counter.toNat + ((schedule.walk left next).tested + 1)
          omega

end Schedule

/-! ### Searches -/

namespace Planner

/-- What the count of a search says about it. -/
structure Counts (planner : Planner) (start : Instant) : Prop where
  /-- A count of zero says that there was nothing to test. -/
  zero_iff : (∃ moment, planner.nextRun start = .error (.noNextRun moment 0)) ↔
    planner.schedule.canOccur = false ∨ IsTop start.moment
  /-- Otherwise something is tested, and the ceiling is kept. -/
  within : ¬ (planner.schedule.canOccur = false ∨ IsTop start.moment) →
    1 ≤ (planner.search start.moment).tested ∧
      (planner.search start.moment).tested ≤ planner.settings.ceiling.toNat
  /-- The word that the candidates are counted in holds their number in the end. -/
  counted : ∀ candidate, planner.schedule.canOccur = true →
    start.moment.next? = some candidate →
      let result := planner.schedule.countedWalk planner.settings.ceiling 0 candidate
      result.1.toNat = (planner.search start.moment).tested ∧
        result.2 = (planner.search start.moment).next?

variable {planner : Planner} {start : Instant}

theorem one_le_tested_search
    (h : ¬ (planner.schedule.canOccur = false ∨ IsTop start.moment)) :
    1 ≤ (planner.search start.moment).tested ∧
      (planner.search start.moment).tested ≤ planner.settings.ceiling.toNat := by
  rw [not_or, Bool.not_eq_false, ← Moment.next?_eq_none_iff_isTop] at h
  obtain ⟨hcan, hnext⟩ := h
  obtain ⟨candidate, hcandidate⟩ := Option.ne_none_iff_exists'.mp hnext
  rw [search_of_next?_eq_some hcan hcandidate]
  exact ⟨Schedule.one_le_tested_walk (one_le_toNat_iff.mpr planner.positive),
    planner.schedule.tested_walk_le _ _⟩

/-- **Counts.**  The ceiling of a planner is positive, so it is never the reason why a search
    tests nothing. -/
theorem counts (planner : Planner) (start : Instant) : planner.Counts start := by
  refine ⟨⟨?_, ?_⟩, one_le_tested_search, ?_⟩
  · rintro ⟨moment, hzero⟩
    by_contra hboth
    have hone := (one_le_tested_search hboth).1
    have hcount := (nextRun_eq_error_iff.mp hzero).2
    rw [Failure.noNextRun.injEq] at hcount
    omega
  · rintro (hcan | htop)
    · exact ⟨_, nextRun_of_canOccur_eq_false hcan⟩
    · exact ⟨_, nextRun_of_next?_eq_none (Moment.next?_eq_none_iff_isTop.mpr htop)⟩
  · intro candidate hcan hnext
    rw [search_of_next?_eq_some hcan hnext]
    have hleft : (0 : UInt64).toNat + planner.settings.ceiling.toNat =
        planner.settings.ceiling.toNat := Nat.zero_add _
    obtain ⟨hcount, hfound⟩ := planner.schedule.countedWalk_eq candidate hleft
    exact ⟨hcount.trans (Nat.zero_add _), hfound⟩

end Planner

/-! ### Requests -/

namespace Runs

/-- The runs that are left after a number of requests. -/
def drop (runs : Runs) : (count : Nat) → Runs
  | 0 => runs
  | count + 1 => runs.next.2.drop count

/-- Requests move the cursor and nothing else. -/
theorem planner_drop (runs : Runs) (count : Nat) : (runs.drop count).planner = runs.planner := by
  induction count generalizing runs with
  | zero => rfl
  | succ count ih => exact ih runs.next.2

/-- A request is a search from the cursor. -/
theorem next_eq_of_cursor {runs : Runs} {cursor : Instant} (h : runs.cursor? = some cursor) :
    runs.next.1 = (runs.planner.nextRun cursor).toOption := by
  rw [next, h]
  rfl

end Runs

/-- **A positive ceiling.**  No document holds settings with a ceiling of zero and no planner
    is made with them, while all others make one and are read back from the document that is
    written for them.  Whatever planner is asked, and however many runs have been asked for
    before, a count of zero says that no run is to be looked for; otherwise the search tests
    a candidate at least and as many as the ceiling at most, and its counter holds them. -/
theorem Planner.positive_ceiling :
    (∀ text settings, Settings.ofJson text = .ok settings → 1 ≤ settings.ceiling.toNat) ∧
    (∀ settings : Settings, 1 ≤ settings.ceiling.toNat →
      Settings.ofJson settings.toJson = .ok settings) ∧
    (∀ schedule settings, (∃ planner, withSettings schedule settings = .ok planner) ↔
      1 ≤ settings.ceiling.toNat) ∧
    (∀ schedule settings planner, withSettings schedule settings = .ok planner ↔
      planner.schedule = schedule ∧ planner.settings = settings) ∧
    (∀ (planner : Planner) (start : Instant), planner.Counts start) ∧
    ∀ (planner : Planner) (start : Instant) (count : Nat),
      let runs := (Runs.after planner start).drop count
      runs.planner = planner ∧ ∀ cursor, runs.cursor? = some cursor →
        runs.next.1 = (runs.planner.nextRun cursor).toOption ∧ runs.planner.Counts cursor := by
  refine ⟨?_, ?_, ?_, ?_, counts, ?_⟩
  · intro text settings h
    exact one_le_toNat_iff.mpr (Settings.ceiling_ne_zero_of_ofJson h)
  · intro settings h
    exact Settings.ofJson_toJson (one_le_toNat_iff.mp h)
  · intro schedule settings
    rw [one_le_toNat_iff]
    exact exists_withSettings_iff
  · intro schedule settings planner
    exact withSettings_eq_ok_iff
  · intro planner start count runs
    refine ⟨Runs.planner_drop _ count, fun cursor hcursor => ?_⟩
    exact ⟨Runs.next_eq_of_cursor hcursor, counts _ _⟩

/-- The largest ceiling is read back, no planner is made with a ceiling of zero, and one that
    may test a single candidate tests it. -/
theorem Planner.positive_ceiling_fridayThirteenth :
    let most : Settings := ⟨18446744073709551615⟩
    let once : Planner := ⟨fridayThirteenth, ⟨1⟩, by decide⟩
    let start := Instant.ofMoment ⟨⟨2024, 1, 1, by decide⟩, TimeOfDay.midnight⟩
    most.toJson = "\x7b\"max_iterations\":18446744073709551615\x7d" ∧
      Settings.ofJson most.toJson = .ok most ∧
      (¬ ∃ planner, withSettings fridayThirteenth ⟨0⟩ = .ok planner) ∧
      (once.search start.moment).tested = 1 := by
  intro most once start
  obtain ⟨_, hread, hmade, _, hcounts, _⟩ := positive_ceiling
  refine ⟨by decide +kernel, hread most (by decide), ?_, ?_⟩
  · rw [hmade]
    decide
  · have hsome : ¬ (once.schedule.canOccur = false ∨ IsTop start.moment) := by
      rw [← Moment.next?_eq_none_iff_isTop]
      decide +kernel
    obtain ⟨hone, hceiling⟩ := (hcounts once start).within hsome
    exact Nat.le_antisymm hceiling hone

end Cron
