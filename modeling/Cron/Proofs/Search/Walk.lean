/-
  Cron/Proofs/Search/Walk.lean
  ============================
  **What a walk tests and what it finds.**

  Only the first carry of a walk can stay on its date, and then it leads to a permitted
  moment.  After any other carry the candidate stands at the first permitted time of a
  scheduled date, where nothing but the weekday can be wrong, so from there on the walk
  tests one scheduled date after the other, each once.  The number of candidates is
  therefore one more than the number of scheduled dates on the way (`cost`), and a
  ceiling cuts the walk short of that number or leaves it as it is (`isCut_walk`).
-/
import Cron.Proofs.Search.Carry
import Cron.Search.Walk

namespace Cron

open Cron.Calendar

namespace Schedule

variable {schedule : Schedule} {candidate : Moment} {target? : Option Moment}

/-! ### The first permitted moment -/

/-- The first permitted moment from a candidate on, or nothing when there is none. -/
structure IsFirstFrom (schedule : Schedule) (candidate : Moment) (target? : Option Moment) :
    Prop where
  permitted : ∀ target ∈ target?, candidate ≤ target ∧ schedule.permits target.reading = true
  least : ∀ moment, candidate ≤ moment → schedule.permits moment.reading = true →
    ∃ target ∈ target?, target ≤ moment

theorem isFirstFrom_some_iff {target : Moment} :
    schedule.IsFirstFrom candidate (some target) ↔
      IsLeast {m | candidate ≤ m ∧ schedule.permits m.reading = true} target := by
  constructor
  · intro h
    refine ⟨h.permitted target rfl, ?_⟩
    rintro moment ⟨hle, hpermits⟩
    obtain ⟨_, ⟨⟩, hleast⟩ := h.least moment hle hpermits
    exact hleast
  · intro h
    refine ⟨?_, fun moment hle hpermits => ⟨target, rfl, h.2 ⟨hle, hpermits⟩⟩⟩
    rintro _ ⟨⟩
    exact h.1

theorem isFirstFrom_none_iff :
    schedule.IsFirstFrom candidate none ↔
      ∀ m, candidate ≤ m → ¬ schedule.permits m.reading = true := by
  constructor
  · intro h moment hle hpermits
    obtain ⟨_, hmem, _⟩ := h.least moment hle hpermits
    cases hmem
  · intro h
    refine ⟨?_, fun moment hle hpermits => absurd hpermits (h moment hle)⟩
    rintro _ ⟨⟩

theorem exists_isFirstFrom (schedule : Schedule) (candidate : Moment) :
    ∃ target?, schedule.IsFirstFrom candidate target? := by
  by_cases hsome : ({m | candidate ≤ m ∧ schedule.permits m.reading = true}).Nonempty
  · obtain ⟨target, htarget⟩ := exists_isLeast hsome
    exact ⟨some target, isFirstFrom_some_iff.mpr htarget⟩
  · refine ⟨none, isFirstFrom_none_iff.mpr fun moment hle hpermits => ?_⟩
    exact hsome ⟨moment, hle, hpermits⟩

theorem IsFirstFrom.unique {other? : Option Moment} (h : schedule.IsFirstFrom candidate target?)
    (hother : schedule.IsFirstFrom candidate other?) : target? = other? := by
  cases target? with
  | none =>
    cases other? with
    | none => rfl
    | some other =>
      obtain ⟨hle, hpermits⟩ := hother.permitted other rfl
      exact absurd hpermits (isFirstFrom_none_iff.mp h other hle)
  | some target =>
    obtain ⟨hle, hpermits⟩ := h.permitted target rfl
    obtain ⟨other, hmem, _⟩ := hother.least target hle hpermits
    obtain rfl : other? = some other := hmem
    rw [(isFirstFrom_some_iff.mp h).unique (isFirstFrom_some_iff.mp hother)]

theorem IsFirstFrom.eq_some (h : schedule.IsFirstFrom candidate target?)
    (hpermits : schedule.permits candidate.reading = true) : target? = some candidate := by
  obtain ⟨target, hmem, hle⟩ := h.least candidate (le_refl _) hpermits
  rw [hmem, le_antisymm hle (h.permitted target hmem).1]

/-! ### The dates on the way -/

/-- The scheduled dates after a date, up to the date of a last moment if there is one and
    else to the end of the calendar. -/
def datesUntil (schedule : Schedule) (start : Date) (last? : Option Moment) : Set Date :=
  {d | schedule.IsScheduled d ∧ start < d ∧ ∀ last ∈ last?, d ≤ last.date}

/-- The number of candidates that a search tests from one on, when no ceiling stops it
    before the first permitted moment or before the end of the calendar. -/
noncomputable def cost (schedule : Schedule) (candidate : Moment) : Option Moment → Nat
  | none => 1 + (schedule.datesUntil candidate.date none).ncard
  | some target =>
    if target = candidate then 1
    else if target.date = candidate.date then 2
    else 1 + (schedule.datesUntil candidate.date (some target)).ncard

theorem one_le_cost (candidate : Moment) (target? : Option Moment) :
    1 ≤ schedule.cost candidate target? := by
  unfold cost
  split
  · exact Nat.le_add_right 1 _
  · split
    · exact le_refl 1
    · split
      · decide
      · exact Nat.le_add_right 1 _

/-- The cost of a search that leaves the date of its first candidate. -/
theorem cost_eq_of_date_ne (h : ∀ target ∈ target?, target.date ≠ candidate.date) :
    schedule.cost candidate target? =
      1 + (schedule.datesUntil candidate.date target?).ncard := by
  cases target? with
  | none => rfl
  | some target =>
    have hdate := h target rfl
    have hne : target ≠ candidate := fun heq => hdate (heq ▸ rfl)
    simp only [cost, if_neg hne, if_neg hdate]

theorem ncard_datesUntil_eq_zero {start : Date} (h : ∀ d, schedule.IsScheduled d → d ≤ start) :
    (schedule.datesUntil start target?).ncard = 0 := by
  rw [Set.ncard_eq_zero]
  exact Set.eq_empty_of_forall_notMem fun d hd => (h d hd.1).not_gt hd.2.1

/-- The next scheduled date is one of them, and the others come after it. -/
theorem ncard_datesUntil_succ {start next : Date}
    (hnext : IsLeast {d | schedule.IsScheduled d ∧ start < d} next)
    (hlast : ∀ target ∈ target?, next ≤ target.date) :
    (schedule.datesUntil start target?).ncard =
      (schedule.datesUntil next target?).ncard + 1 := by
  have hinsert : schedule.datesUntil start target? =
      insert next (schedule.datesUntil next target?) := by
    ext d
    rw [Set.mem_insert_iff]
    constructor
    · rintro ⟨hd, hlt, hle⟩
      rcases (hnext.2 ⟨hd, hlt⟩).eq_or_lt with heq | hafter
      · exact Or.inl heq.symm
      · exact Or.inr ⟨hd, hafter, hle⟩
    · rintro (rfl | ⟨hd, hlt, hle⟩)
      · exact ⟨hnext.1.1, hnext.1.2, hlast⟩
      · exact ⟨hd, hnext.1.2.trans hlt, hle⟩
  rw [hinsert, Set.ncard_insert_of_notMem fun h => lt_irrefl next h.2.1]

/-- The first permitted moment is not affected by starting over at the first time of the
    next scheduled date, when the date before has none. -/
theorem IsFirstFrom.of_next_date {next : Date} {first : TimeOfDay}
    (h : schedule.IsFirstFrom candidate target?)
    (hout : ∀ m, candidate ≤ m → schedule.permits m.reading = true → m.date ≠ candidate.date)
    (hnext : IsLeast {d | schedule.IsScheduled d ∧ candidate.date < d} next)
    (hfirst : IsLeast {t | schedule.PermitsTime t} first) :
    schedule.IsFirstFrom ⟨next, first⟩ target? ∧ ∀ target ∈ target?, next ≤ target.date := by
  have hdate : ∀ target ∈ target?, next ≤ target.date := by
    intro target hmem
    obtain ⟨hle, hpermits⟩ := h.permitted target hmem
    have hlt := (Moment.date_le hle).lt_of_ne (hout target hle hpermits).symm
    exact hnext.2 ⟨(permits_reading_iff.mp hpermits).1, hlt⟩
  refine ⟨⟨fun target hmem => ?_, fun moment hle hpermits => ?_⟩, hdate⟩
  · obtain ⟨_, hpermits⟩ := h.permitted target hmem
    refine ⟨Moment.le_iff.mpr ?_, hpermits⟩
    rcases (hdate target hmem).lt_or_eq with hlt | heq
    · exact Or.inl hlt
    · exact Or.inr ⟨heq, hfirst.2 (permits_reading_iff.mp hpermits).2.2⟩
  · have hdates := Moment.date_le hle
    have hafter : candidate.date < moment.date := hnext.1.2.trans_le hdates
    have hlt : candidate < moment := Moment.lt_iff.mpr (Or.inl hafter)
    exact h.least moment hlt.le hpermits

/-- No scheduled date is left, so no permitted moment is. -/
theorem IsFirstFrom.eq_none (h : schedule.IsFirstFrom candidate target?)
    (hout : ∀ m, candidate ≤ m → schedule.permits m.reading = true → m.date ≠ candidate.date)
    (hnone : ∀ d, schedule.IsScheduled d → d ≤ candidate.date) : target? = none := by
  cases target? with
  | none => rfl
  | some target =>
    obtain ⟨hle, hpermits⟩ := h.permitted target rfl
    have hge := hnone target.date (permits_reading_iff.mp hpermits).1
    exact absurd (le_antisymm hge (Moment.date_le hle)) (hout target hle hpermits)

end Schedule

/-! ### Cutting a walk -/

/-- Whether a walk is what a ceiling leaves of one that tests `total` candidates and then
    ends with `target?`. -/
structure Walk.IsCut (walk : Walk) (ceiling total : Nat) (target? : Option Moment) : Prop where
  tested_eq : walk.tested = min ceiling total
  found?_eq : walk.found? = if total ≤ ceiling then target? else none

namespace Schedule

variable {schedule : Schedule} {candidate : Moment} {target? : Option Moment}

theorem isCut_walk_zero {total : Nat} (htotal : 1 ≤ total) :
    (schedule.walk 0 candidate).IsCut 0 total target? := by
  refine ⟨(Nat.zero_min total).symm, ?_⟩
  rw [if_neg (by omega)]
  rfl

theorem isCut_walk_of_permits {ceiling : Nat}
    (h : schedule.permits candidate.reading = true) :
    (schedule.walk ceiling candidate).IsCut ceiling 1 (some candidate) := by
  cases ceiling with
  | zero => exact isCut_walk_zero (le_refl 1)
  | succ ceiling => exact ⟨by simp [walk, h], by simp [walk, h]⟩

theorem isCut_walk_of_successor?_eq_none {ceiling : Nat}
    (h : ¬ schedule.permits candidate.reading = true)
    (hnone : schedule.successor? candidate = none) :
    (schedule.walk (ceiling + 1) candidate).IsCut (ceiling + 1) 1 none := by
  unfold walk
  rw [if_neg h]
  cases hcarry : schedule.carry? candidate with
  | none => exact ⟨by simp, by simp⟩
  | some carry =>
    rw [successor?, hcarry, Option.bind_some] at hnone
    simp only [hnone]
    exact ⟨by simp, by simp⟩

theorem isCut_walk_of_successor?_eq_some {ceiling total : Nat} {next : Moment}
    (h : ¬ schedule.permits candidate.reading = true)
    (hsome : schedule.successor? candidate = some next)
    (hrest : (schedule.walk ceiling next).IsCut ceiling total target?) :
    (schedule.walk (ceiling + 1) candidate).IsCut (ceiling + 1) (total + 1) target? := by
  obtain ⟨carry, hcarry, hfollow⟩ := Option.bind_eq_some_iff.mp hsome
  unfold walk
  rw [if_neg h]
  simp only [hcarry, hfollow]
  refine ⟨?_, ?_⟩
  · simp only [hrest.tested_eq]
    omega
  · simp only [hrest.found?_eq, Nat.add_le_add_iff_right]

/-- Nothing that is permitted is left on the date of a rejected candidate without a later
    permitted time. -/
theorem date_ne_of_no_later (hrejects : ¬ schedule.permits candidate.reading = true)
    (hlater : schedule.IsScheduled candidate.date → schedule.PermitsWeekday candidate.date →
      ∀ t, schedule.PermitsTime t → t ≤ candidate.time)
    {moment : Moment} (hle : candidate ≤ moment)
    (hpermits : schedule.permits moment.reading = true) : moment.date ≠ candidate.date := by
  intro hdate
  obtain ⟨hscheduled, hweekday, htime⟩ := permits_reading_iff.mp hpermits
  rcases hle.lt_or_eq with hlt | heq
  · rcases Moment.lt_iff.mp hlt with hbefore | ⟨_, hafter⟩
    · exact hbefore.ne hdate.symm
    · rw [hdate] at hscheduled hweekday
      exact (hlater hscheduled hweekday moment.time htime).not_gt hafter
  · exact hrejects (heq ▸ hpermits)

/-- The next permitted time of a date that could be permitted is the first permitted
    moment. -/
theorem isFirstFrom_of_time {time : TimeOfDay}
    (hrejects : ¬ schedule.permits candidate.reading = true)
    (hdate : schedule.IsScheduled candidate.date)
    (hweekday : schedule.PermitsWeekday candidate.date)
    (htime : IsLeast {t | schedule.PermitsTime t ∧ candidate.time < t} time) :
    schedule.IsFirstFrom candidate (some ⟨candidate.date, time⟩) := by
  rw [isFirstFrom_some_iff]
  have hlt : candidate < ⟨candidate.date, time⟩ := Moment.lt_iff.mpr (Or.inr ⟨rfl, htime.1.2⟩)
  refine ⟨⟨hlt.le, permits_reading_iff.mpr ⟨hdate, hweekday, htime.1.1⟩⟩, ?_⟩
  rintro moment ⟨hle, hpermits⟩
  have hne : candidate ≠ moment := fun heq => hrejects (heq ▸ hpermits)
  rcases Moment.lt_iff.mp (hle.lt_of_ne hne) with hbefore | ⟨heq, hafter⟩
  · exact Moment.le_iff.mpr (Or.inl hbefore)
  · have hleast := htime.2 ⟨(permits_reading_iff.mp hpermits).2.2, hafter⟩
    exact Moment.le_iff.mpr (Or.inr ⟨heq, hleast⟩)

namespace WellFormed

variable (hs : schedule.WellFormed)
include hs

/-- A walk that leaves the date of its candidate goes on at the next scheduled date. -/
theorem isCut_walk_of_no_later {ceiling : Nat}
    (hrejects : ¬ schedule.permits candidate.reading = true)
    (hlater : schedule.IsScheduled candidate.date → schedule.PermitsWeekday candidate.date →
      ∀ t, schedule.PermitsTime t → t ≤ candidate.time)
    (h : schedule.IsFirstFrom candidate target?)
    (hrest : ∀ next first, schedule.IsScheduled next → schedule.firstTime? = some first →
      IsLeast {t | schedule.PermitsTime t} first → schedule.IsFirstFrom ⟨next, first⟩ target? →
      (schedule.walk ceiling ⟨next, first⟩).IsCut ceiling
        (1 + (schedule.datesUntil next target?).ncard) target?) :
    (schedule.walk (ceiling + 1) candidate).IsCut (ceiling + 1)
      (1 + (schedule.datesUntil candidate.date target?).ncard) target? := by
  have hout : ∀ m, candidate ≤ m → schedule.permits m.reading = true →
      m.date ≠ candidate.date :=
    fun _ => date_ne_of_no_later hrejects hlater
  by_cases hnone : ∀ d, schedule.IsScheduled d → d ≤ candidate.date
  · rw [ncard_datesUntil_eq_zero hnone, h.eq_none hout hnone]
    exact isCut_walk_of_successor?_eq_none hrejects (hs.successor?_eq_none hlater hnone)
  · push Not at hnone
    obtain ⟨next, hnext⟩ :=
      exists_isLeast (s := {d | schedule.IsScheduled d ∧ candidate.date < d}) hnone
    obtain ⟨first, htime, hfirst⟩ := hs.exists_firstTime
    obtain ⟨hfrom, hlast⟩ := h.of_next_date hout hnext hfirst
    rw [ncard_datesUntil_succ hnext hlast, ← Nat.add_assoc]
    exact isCut_walk_of_successor?_eq_some hrejects
      (hs.successor?_eq_of_date hlater htime hnext)
      (hrest next first hnext.1.1 htime hfirst hfrom)

/-- From the first time of a scheduled date on, a walk tests one scheduled date after the
    other.  The induction is on the ceiling; what it carries along is that the walk stands
    at such a candidate and still heads for the same first permitted moment. -/
theorem isCut_walk_of_firstTime {date : Date} {first : TimeOfDay}
    (hdate : schedule.IsScheduled date) (hfirst : IsLeast {t | schedule.PermitsTime t} first)
    (h : schedule.IsFirstFrom ⟨date, first⟩ target?) (ceiling : Nat) :
    (schedule.walk ceiling ⟨date, first⟩).IsCut ceiling
      (1 + (schedule.datesUntil date target?).ncard) target? := by
  induction ceiling generalizing date first with
  | zero => exact isCut_walk_zero (Nat.le_add_right 1 _)
  | succ ceiling ih =>
    by_cases hweekday : schedule.PermitsWeekday date
    · have hpermits : schedule.permits (Moment.reading ⟨date, first⟩) = true :=
        permits_reading_iff.mpr ⟨hdate, hweekday, hfirst.1⟩
      obtain rfl := h.eq_some hpermits
      have hempty : (schedule.datesUntil date (some ⟨date, first⟩)).ncard = 0 := by
        rw [Set.ncard_eq_zero]
        refine Set.eq_empty_of_forall_notMem ?_
        rintro d ⟨_, hlt, hle⟩
        exact (hle _ rfl).not_gt hlt
      rw [hempty]
      exact isCut_walk_of_permits hpermits
    · -- the weekday rejects the whole date
      have hrejects : ¬ schedule.permits (Moment.reading ⟨date, first⟩) = true :=
        fun hpermits => hweekday (permits_reading_iff.mp hpermits).2.1
      exact hs.isCut_walk_of_no_later hrejects (fun _ hweek => absurd hweek hweekday) h
        fun next first' hnext _ hfirst' hfrom => ih hnext hfirst' hfrom

/-- Under any ceiling a walk tests and finds what the ceiling leaves of the cost. -/
theorem isCut_walk (h : schedule.IsFirstFrom candidate target?) (ceiling : Nat) :
    (schedule.walk ceiling candidate).IsCut ceiling (schedule.cost candidate target?)
      target? := by
  rcases ceiling with _ | ceiling
  · exact isCut_walk_zero (one_le_cost candidate target?)
  by_cases hpermits : schedule.permits candidate.reading = true
  · obtain rfl := h.eq_some hpermits
    simp only [cost, if_true]
    exact isCut_walk_of_permits hpermits
  by_cases hlater : schedule.IsScheduled candidate.date →
      schedule.PermitsWeekday candidate.date →
      ∀ t, schedule.PermitsTime t → t ≤ candidate.time
  · have hout : ∀ target ∈ target?, target.date ≠ candidate.date := fun target hmem =>
      date_ne_of_no_later hpermits hlater (h.permitted target hmem).1 (h.permitted target hmem).2
    rw [cost_eq_of_date_ne hout]
    exact hs.isCut_walk_of_no_later hpermits hlater h
      fun next first hnext _ hfirst hfrom => hs.isCut_walk_of_firstTime hnext hfirst hfrom ceiling
  · -- the first carry stays on the date, and leads to a permitted moment
    push Not at hlater
    obtain ⟨hdate, hweekday, htimes⟩ := hlater
    obtain ⟨time, htime⟩ :=
      exists_isLeast (s := {t | schedule.PermitsTime t ∧ candidate.time < t}) htimes
    obtain rfl : target? = some ⟨candidate.date, time⟩ :=
      h.unique (isFirstFrom_of_time hpermits hdate hweekday htime)
    have hne : (⟨candidate.date, time⟩ : Moment) ≠ candidate := by
      intro heq
      have hlt := htime.1.2
      rw [← congrArg Moment.time heq] at hlt
      exact lt_irrefl time hlt
    have hcost : schedule.cost candidate (some ⟨candidate.date, time⟩) = 1 + 1 := by
      simp [cost, hne]
    rw [hcost]
    refine isCut_walk_of_successor?_eq_some hpermits
      (hs.successor?_eq_of_time hdate hweekday htime) (isCut_walk_of_permits ?_)
    exact permits_reading_iff.mpr ⟨hdate, hweekday, htime.1.1⟩

end WellFormed

end Schedule

end Cron
