/-
  Cron/Proofs/Search/Plain.lean
  =============================
  **The search that never skips ahead.**

  A search begins each carry with the coarsest unit that a moment violates.  The plain
  search has no ceiling and begins with the second every time, whatever the moment
  violates: it goes through the permitted seconds of a wrong hour, and through the
  permitted days of a wrong month.  The two test hardly any candidate in common, so they
  are not compared step by step.  Each is compared with the first permitted moment:

    * a plain step leads to a later moment and skips no permitted one, or leads nowhere
      because none is left (`skipsNone_carrySecond?`);
    * so a plain walk that ends has found the first permitted moment
      (`isFirstFrom_of_plainWalk`), and every plain walk ends because the calendar does
      (`exists_plainWalk`).

  Skipping ahead therefore changes no answer (`nextRun_eq_ok_iff_plain`).
-/
import Cron.Proofs.Planner

namespace Cron

open Cron.Calendar

namespace Schedule

/-! ### The plain search -/

/-- The moment that the plain cascade leads to.  It always begins with the second. -/
def plainSuccessor? (schedule : Schedule) (moment : Moment) : Option Moment :=
  (schedule.carrySecond? moment).bind (schedule.follow? moment)

/-- The plain walk from a candidate and what it finds.  Nothing but a permitted moment or
    the end of the calendar ends it. -/
inductive PlainWalk (schedule : Schedule) : Moment → Option Moment → Prop where
  | permitted {candidate : Moment} (hpermits : schedule.permits candidate.reading = true) :
    PlainWalk schedule candidate (some candidate)
  | calendarEnds {candidate : Moment} (hrejects : ¬ schedule.permits candidate.reading = true)
    (hnone : schedule.plainSuccessor? candidate = none) : PlainWalk schedule candidate none
  | step {candidate next : Moment} {found? : Option Moment}
    (hrejects : ¬ schedule.permits candidate.reading = true)
    (hnext : schedule.plainSuccessor? candidate = some next)
    (hrest : PlainWalk schedule next found?) : PlainWalk schedule candidate found?

/-- What the plain search finds that starts at the second after a moment. -/
def PlainFinds (schedule : Schedule) (start : Moment) (found? : Option Moment) : Prop :=
  match start.next? with
  | none => found? = none
  | some candidate => schedule.PlainWalk candidate found?

/-! ### Steps that skip no permitted moment -/

variable {schedule : Schedule} {moment : Moment}

/-- The carry leads to a moment that is late enough, and no permitted moment that is late
    enough comes before it; or it leads nowhere, and none is left. -/
def SkipsNone (schedule : Schedule) (moment : Moment) (late : Moment → Prop)
    (carry? : Option Carry) : Prop :=
  (∃ next, carry?.bind (schedule.follow? moment) = some next ∧ late next ∧
      ∀ m, schedule.permits m.reading = true → late m → next ≤ m) ∨
    (∀ m, schedule.permits m.reading = true → ¬ late m) ∧
      carry?.bind (schedule.follow? moment) = none

/-- A coarser unit takes over from a finer one for which no permitted moment is left. -/
theorem SkipsNone.mono {late late' : Moment → Prop} {carry? : Option Carry}
    (h : schedule.SkipsNone moment late carry?) (hlate : ∀ m, late m → late' m)
    (hleft : ∀ m, schedule.permits m.reading = true → late' m → late m) :
    schedule.SkipsNone moment late' carry? := by
  rcases h with ⟨next, hfollow, hnext, hleast⟩ | ⟨hnone, hfollow⟩
  · exact Or.inl ⟨next, hfollow, hlate next hnext, fun m hm h => hleast m hm (hleft m hm h)⟩
  · exact Or.inr ⟨fun m hm h => hnone m hm (hleft m hm h), hfollow⟩

/-- Late enough for a unit of the time of day: on a later date, or late enough on the
    same one. -/
def IsLater (moment : Moment) (late : TimeOfDay → Prop) (m : Moment) : Prop :=
  moment.date < m.date ∨ moment.date = m.date ∧ late m.time

theorem IsLater.imp {late late' : TimeOfDay → Prop} {m : Moment} (h : IsLater moment late m)
    (himp : late m.time → late' m.time) : IsLater moment late' m :=
  Or.imp_right (And.imp_right himp) h

/-- A carry to the first late enough time of the same date skips none.  The time itself
    need not be permitted. -/
theorem skipsNone_of_time {late : TimeOfDay → Prop} {carry? : Option Carry} {time : TimeOfDay}
    (hfollow : carry?.bind (schedule.follow? moment) = some ⟨moment.date, time⟩)
    (hlate : late time) (hleast : ∀ t, schedule.PermitsTime t → late t → time ≤ t) :
    schedule.SkipsNone moment (IsLater moment late) carry? := by
  refine Or.inl ⟨⟨moment.date, time⟩, hfollow, Or.inr ⟨rfl, hlate⟩, ?_⟩
  rintro m hpermits (hdate | ⟨hdate, htime⟩)
  · exact Moment.le_iff.mpr (Or.inl hdate)
  · have hle := hleast m.time (permits_reading_iff.mp hpermits).2.2 htime
    exact Moment.le_iff.mpr (Or.inr ⟨hdate, hle⟩)

/-- A carry to the first time of the first late enough date skips none.  The date itself
    need not be scheduled. -/
theorem skipsNone_of_date {late : Date → Prop} {carry? : Option Carry} {date : Date}
    {first : TimeOfDay} (hfollow : carry?.bind (schedule.follow? moment) = some ⟨date, first⟩)
    (hfirst : IsLeast {t | schedule.PermitsTime t} first) (hlate : late date)
    (hleast : ∀ d, schedule.IsScheduled d → late d → date ≤ d) :
    schedule.SkipsNone moment (fun m => late m.date) carry? := by
  refine Or.inl ⟨⟨date, first⟩, hfollow, hlate, fun m hpermits hm => ?_⟩
  obtain ⟨hscheduled, _, htime⟩ := permits_reading_iff.mp hpermits
  rcases (hleast m.date hscheduled hm).lt_or_eq with hlt | heq
  · exact Moment.le_iff.mpr (Or.inl hlt)
  · exact Moment.le_iff.mpr (Or.inr ⟨heq, hfirst.2 htime⟩)

namespace WellFormed

variable (hs : schedule.WellFormed)
include hs

/-! ### The plain cascade, from its coarsest unit to its finest -/

/-- A carry to the first scheduled date that is late enough skips no permitted moment. -/
theorem skipsNone_of_carriesDate {late : Date → Prop} {carry? : Option Carry}
    (h : schedule.CarriesDate moment late carry?) :
    schedule.SkipsNone moment (fun m => late m.date) carry? := by
  rcases h with ⟨date, first, hfollow, htime, hleast⟩ | ⟨hnone, hfollow⟩
  · obtain ⟨first', htime', hfirst⟩ := hs.exists_firstTime
    obtain rfl : first' = first := Option.some.inj (htime'.symm.trans htime)
    exact skipsNone_of_date hfollow hfirst hleast.1.2 fun d hd hlate => hleast.2 ⟨hd, hlate⟩
  · exact Or.inr ⟨fun m hm => hnone m.date (permits_reading_iff.mp hm).1, hfollow⟩

theorem skipsNone_carryMonth? :
    schedule.SkipsNone moment
      (fun m => moment.date.year < m.date.year ∨
        moment.date.year = m.date.year ∧ moment.date.month < m.date.month)
      (schedule.carryMonth? moment) :=
  hs.skipsNone_of_carriesDate hs.carriesDate_carryMonth?

/-- The month need not be permitted.  Then neither the days that are skipped nor the day
    that the carry leads to are scheduled. -/
theorem skipsNone_carryDay? :
    schedule.SkipsNone moment (fun m => moment.date < m.date) (schedule.carryDay? moment) := by
  rw [carryDay?_eq]
  cases hday : (schedule.next? .day moment.date.day).filter fun day =>
      day ≤ daysIn moment.date.year moment.date.month with
  | none =>
    refine hs.skipsNone_carryMonth?.mono (fun m h => Date.lt_iff.mpr (by omega)) ?_
    intro m hpermits hlt
    exact hs.later_month_of_no_next_day hday (permits_reading_iff.mp hpermits).1 hlt
  | some day =>
    obtain ⟨date, hdate, _, hlt, hleast⟩ := hs.exists_date_of_next_day hday
    obtain ⟨first, htime, hfirst⟩ := hs.exists_firstTime
    exact skipsNone_of_date (follow?_atFirstTime hdate htime) hfirst hlt hleast

theorem skipsNone_carryHour? :
    schedule.SkipsNone moment (IsLater moment fun t => moment.time.hour < t.hour)
      (schedule.carryHour? moment) := by
  have hcarries : schedule.CarriesTime moment _ _ := hs.carriesTime_carryHour?
  rcases hcarries with ⟨time, hfollow, hleast⟩ | ⟨hnone, hcarry⟩
  · exact skipsNone_of_time hfollow hleast.1.2 fun t ht hlate => hleast.2 ⟨ht, hlate⟩
  · rw [hcarry]
    refine hs.skipsNone_carryDay?.mono (fun m => Or.inl) ?_
    rintro m hpermits (hdate | ⟨_, hlater⟩)
    · exact hdate
    · exact absurd hlater (hnone m.time (permits_reading_iff.mp hpermits).2.2)

theorem skipsNone_carryMinute? :
    schedule.SkipsNone moment
      (IsLater moment fun t => moment.time.hour < t.hour ∨
        moment.time.hour = t.hour ∧ moment.time.minute < t.minute)
      (schedule.carryMinute? moment) := by
  rw [carryMinute?]
  cases hnext : schedule.next? .minute moment.time.minute with
  | none =>
    refine hs.skipsNone_carryHour?.mono (fun m h => h.imp Or.inl) fun m hpermits h => h.imp ?_
    rintro (hhour | ⟨_, hlater⟩)
    · exact hhour
    · have hmem := (permits_reading_iff.mp hpermits).2.2.2.1
      exact absurd (next?_eq_none_iff.mp hnext _ hmem) (Nat.not_le.mpr hlater)
  | some minute =>
    obtain ⟨time, htime, hhour, _, hlater, hleast⟩ := hs.exists_time_of_next_minute hnext
    exact skipsNone_of_time (follow?_onSameDay htime) (Or.inr ⟨hhour.symm, hlater⟩) hleast

theorem skipsNone_carrySecond? (moment : Moment) :
    schedule.SkipsNone moment (moment < ·) (schedule.carrySecond? moment) := by
  suffices hlater : schedule.SkipsNone moment (IsLater moment (moment.time < ·))
      (schedule.carrySecond? moment) from
    hlater.mono (fun m => Moment.lt_iff.mpr) fun m _ => Moment.lt_iff.mp
  rw [carrySecond?]
  cases hnext : schedule.next? .second moment.time.second with
  | none =>
    refine hs.skipsNone_carryMinute?.mono (fun m h => h.imp fun ht => ?_)
      fun m hpermits h => h.imp fun ht => ?_
    · exact TimeOfDay.lt_iff.mpr (by omega)
    · have hmem := (permits_reading_iff.mp hpermits).2.2.2.2
      have hle := next?_eq_none_iff.mp hnext _ hmem
      have hlt := TimeOfDay.lt_iff.mp ht
      omega
  | some second =>
    obtain ⟨time, htime, _, _, hlt, hleast⟩ := hs.exists_time_of_next_second hnext
    exact skipsNone_of_time (follow?_onSameDay htime) hlt hleast

/-! ### Plain walks -/

/-- Every plain walk ends.  Each step goes to a later moment, and the calendar has only
    so many. -/
theorem exists_plainWalk (candidate : Moment) : ∃ found?, schedule.PlainWalk candidate found? := by
  induction candidate using WellFoundedGT.induction with
  | ind candidate ih =>
    by_cases hpermits : schedule.permits candidate.reading = true
    · exact ⟨some candidate, .permitted hpermits⟩
    rcases hs.skipsNone_carrySecond? candidate with ⟨next, hnext, hlt, _⟩ | ⟨_, hnone⟩
    · obtain ⟨found?, hrest⟩ := ih next hlt
      exact ⟨found?, .step hpermits hnext hrest⟩
    · exact ⟨none, .calendarEnds hpermits hnone⟩

/-- A plain walk finds the first permitted moment.  The induction is on the walk: no step
    leaves a permitted moment behind. -/
theorem isFirstFrom_of_plainWalk {candidate : Moment} {found? : Option Moment}
    (h : schedule.PlainWalk candidate found?) : schedule.IsFirstFrom candidate found? := by
  induction h with
  | @permitted candidate hpermits =>
    exact isFirstFrom_some_iff.mpr ⟨⟨le_refl candidate, hpermits⟩, fun m hm => hm.1⟩
  | @calendarEnds candidate hrejects hnone =>
    rcases hs.skipsNone_carrySecond? candidate with ⟨next, hnext, _⟩ | ⟨hleft, _⟩
    · exact absurd (hnone.symm.trans hnext) (Option.some_ne_none next).symm
    · refine isFirstFrom_none_iff.mpr fun m hle hpermits => ?_
      have hne : candidate ≠ m := fun heq => hrejects (heq ▸ hpermits)
      exact hleft m hpermits (hle.lt_of_ne hne)
  | @step candidate next found? hrejects hnext hrest ih =>
    rcases hs.skipsNone_carrySecond? candidate with ⟨next', hnext', hlt, hleast⟩ | ⟨_, hnone⟩
    · obtain rfl : next' = next := Option.some.inj (hnext'.symm.trans hnext)
      refine ⟨fun target hmem => ?_, fun m hle hpermits => ?_⟩
      · obtain ⟨hafter, hpermits⟩ := ih.permitted target hmem
        exact ⟨hlt.le.trans hafter, hpermits⟩
      · have hne : candidate ≠ m := fun heq => hrejects (heq ▸ hpermits)
        exact ih.least m (hleast m hpermits (hle.lt_of_ne hne)) hpermits
    · exact absurd (hnone.symm.trans hnext) (Option.some_ne_none next).symm

theorem plainWalk_iff_isFirstFrom {candidate : Moment} {found? : Option Moment} :
    schedule.PlainWalk candidate found? ↔ schedule.IsFirstFrom candidate found? := by
  refine ⟨hs.isFirstFrom_of_plainWalk, fun h => ?_⟩
  obtain ⟨other?, hwalk⟩ := hs.exists_plainWalk candidate
  rw [h.unique (hs.isFirstFrom_of_plainWalk hwalk)]
  exact hwalk

/-! ### What the plain search finds -/

variable {start : Instant}

theorem plainFinds_some_iff {next : Moment} :
    schedule.PlainFinds start.moment (some next) ↔ IsLeast (schedule.runsAfter start) next := by
  unfold PlainFinds
  cases hnext : start.moment.next? with
  | none =>
    rw [runsAfter_eq_empty hnext]
    constructor
    · intro h
      cases h
    · intro h
      exact absurd h.1 (Set.notMem_empty next)
  | some candidate =>
    rw [runsAfter_eq hnext, ← isFirstFrom_some_iff]
    exact hs.plainWalk_iff_isFirstFrom

theorem plainFinds_none_iff :
    schedule.PlainFinds start.moment none ↔ schedule.runsAfter start = ∅ := by
  unfold PlainFinds
  cases hnext : start.moment.next? with
  | none => exact iff_of_true rfl (runsAfter_eq_empty hnext)
  | some candidate =>
    rw [runsAfter_eq hnext, Set.eq_empty_iff_forall_notMem]
    apply hs.plainWalk_iff_isFirstFrom.trans
    rw [isFirstFrom_none_iff]
    exact forall_congr' fun m => not_and.symm

end WellFormed

end Schedule

namespace Planner

/-- **Skipping ahead is a pure optimisation.**  Under the default ceiling a search finds
    the moment that the plain search finds, which always begins with the second and has no
    ceiling, and finds none when the plain search finds none. -/
theorem nextRun_eq_ok_iff_plain {text : String} {schedule : Schedule}
    (h : Schedule.parse text = .ok schedule) (start : Instant) :
    (∀ next, (ofSchedule schedule).nextRun start = .ok next ↔
        schedule.PlainFinds start.moment (some next)) ∧
      ((∃ tested, (ofSchedule schedule).nextRun start =
          .error (.noNextRun (Instant.ofMoment start.moment) tested)) ↔
        schedule.PlainFinds start.moment none) := by
  have hs : (ofSchedule schedule).schedule.WellFormed := Schedule.wellFormed_of_parse h
  have hceiling : 5000 ≤ defaultCeiling.toNat := by decide
  constructor
  · intro next
    apply Iff.trans _ hs.plainFinds_some_iff.symm
    constructor
    · exact isLeast_of_nextRun hs
    · intro hleast
      obtain ⟨found, hfound⟩ := exists_nextRun hs hceiling ⟨next, hleast.1⟩
      rw [hfound, (isLeast_of_nextRun hs hfound).unique hleast]
  · apply Iff.trans _ hs.plainFinds_none_iff.symm
    constructor
    · rintro ⟨tested, herror⟩
      exact runsAfter_eq_empty_of_nextRun hs hceiling herror
    · exact exists_nextRun_error hs hceiling

/-- The next 29 February after 2096 is eight years away.  On its way from a March morning
    the plain search stops at a second of a wrong hour and at two of a wrong month.  After the
    last 29 February of the calendar it finds none. -/
theorem plainFinds_leapDays :
    let schedule : Schedule := ⟨[0, 30], [0], [9], [29], [2], [0, 1, 2, 3, 4, 5, 6]⟩
    let start := Instant.ofMoment ⟨⟨2096, 3, 1, by decide⟩, ⟨10, 0, 0, by decide⟩⟩
    let last := Instant.ofMoment ⟨⟨262140, 2, 29, by decide⟩, ⟨9, 0, 30, by decide⟩⟩
    schedule.PlainFinds start.moment
        (some ⟨⟨2104, 2, 29, by decide⟩, ⟨9, 0, 0, by decide⟩⟩) ∧
      schedule.PlainFinds last.moment none := by
  intro schedule start last
  have h : Schedule.parse "0,30 0 9 29 feb *" = .ok schedule := by decide +kernel
  constructor
  · exact ((nextRun_eq_ok_iff_plain h start).1 _).mp (by decide +kernel)
  · exact (nextRun_eq_ok_iff_plain h last).2.mp ⟨1, by decide +kernel⟩

end Planner

end Cron
