/-
  Cron/Proofs/Search/Trail.lean
  =============================
  **The trail of a walk: its carries and the candidates between them.**

  A walk takes a carry out of each candidate that it rejects, so carries and candidates
  alternate.  Two things are particular about the trail:

    * its end.  A walk that finds a moment has tested one candidate more than it has taken
      carries (`tested_walk_of_found`).  A walk that finds none has taken a carry out of the
      last candidate too, even where that carry leads past the end of the calendar, unless
      there was no carry at all, which happens after the last leap day only
      (`tested_walk_of_not_found`, `carry?_eq_none_iff`);
    * its first carry.  A carry into a time of day leads to a permitted moment, so it stands
      alone (`eq_singleton_of_movesTime`).
-/
import Cron.Proofs.Search.Horizon

namespace Cron

open Cron.Calendar

/-! ### What a carry names -/

/-- Whether a carry leads to another time of the same date. -/
def Carry.movesTime : Carry → Bool
  | .second _ | .minute _ | .hour _ => true
  | .day _ | .month _ _ | .year _ _ _ => false

namespace Schedule

/-- What each unit of the cascade finds for a carry out of a moment. -/
inductive Moves (schedule : Schedule) (moment : Moment) : Carry → Prop where
  | second {value : Nat} (hvalue : schedule.next? .second moment.time.second = some value) :
    Moves schedule moment (.second value)
  | minute {value : Nat} (hvalue : schedule.next? .minute moment.time.minute = some value) :
    Moves schedule moment (.minute value)
  | hour {value : Nat} (hvalue : schedule.next? .hour moment.time.hour = some value) :
    Moves schedule moment (.hour value)
  | day {value : Nat} (hvalue : schedule.next? .day moment.date.day = some value)
    (hlength : value ≤ daysIn moment.date.year moment.date.month) :
    Moves schedule moment (.day value)
  | month {month : Nat} (hmem : month ∈ schedule.values .month)
    (hfits : schedule.fits moment.date.year month = true) :
    Moves schedule moment (.month month (schedule.first .day))
  | year {year : Int} {month : Nat} (hlater : moment.date.year < year)
    (hmonth : schedule.months.find? (schedule.fits year) = some month) :
    Moves schedule moment (.year year month (schedule.first .day))

/-- What a carry out of a moment can name: permitted values, and days that the month has.
    The year can be one that the calendar does not have. -/
def IsDue (schedule : Schedule) (moment : Moment) : Carry → Prop
  | .second value => value ∈ schedule.values .second
  | .minute value => value ∈ schedule.values .minute
  | .hour value => value ∈ schedule.values .hour
  | .day value =>
    value ∈ schedule.values .day ∧ value ≤ daysIn moment.date.year moment.date.month
  | .month month day =>
    month ∈ schedule.values .month ∧ day = schedule.first .day ∧
      schedule.fits moment.date.year month = true
  | .year year month day =>
    moment.date.year < year ∧ month ∈ schedule.values .month ∧ day = schedule.first .day ∧
      schedule.fits year month = true

variable {schedule : Schedule} {moment : Moment} {carry : Carry}

/-- A unit of the cascade carries itself, or leaves the carry to the coarser ones. -/
theorem eq_or_of_carries {unit : Nat → Carry} {value? : Option Nat} {coarser? : Option Carry}
    (h : (value?.map unit <|> coarser?) = some carry) :
    (∃ value, value? = some value ∧ carry = unit value) ∨ coarser? = some carry := by
  rw [Option.orElse_eq_orElse, Option.orElse_eq_or, Option.or_eq_some_iff] at h
  rcases h with h | ⟨_, h⟩
  · obtain ⟨value, hvalue, rfl⟩ := Option.map_eq_some_iff.mp h
    exact Or.inl ⟨value, hvalue, rfl⟩
  · exact Or.inr h

theorem coarser?_eq_none {unit : Nat → Carry} {value? : Option Nat} {coarser? : Option Carry}
    (h : (value?.map unit <|> coarser?) = none) : coarser? = none := by
  rw [Option.orElse_eq_orElse, Option.orElse_eq_or, Option.or_eq_none_iff] at h
  exact h.2

theorem mem_of_next?_eq_some {field : Field} {current value : Nat}
    (h : schedule.next? field current = some value) : value ∈ schedule.values field :=
  List.mem_of_find?_eq_some h

/-- A carry out of a date does not move the time. -/
theorem moves_of_carryYear? (h : schedule.carryYear? moment = some carry) :
    schedule.Moves moment carry ∧ carry.movesTime = false := by
  obtain ⟨n, hinto, _⟩ := WellFormed.carryYear?_eq_some h
  obtain ⟨month, hmonth, rfl⟩ := Option.map_eq_some_iff.mp hinto
  exact ⟨Moves.year (by omega) hmonth, rfl⟩

theorem moves_of_carryMonth? (h : schedule.carryMonth? moment = some carry) :
    schedule.Moves moment carry ∧ carry.movesTime = false := by
  rcases eq_or_of_carries h with ⟨month, hmonth, rfl⟩ | h
  · have hfits := List.find?_some hmonth
    rw [Bool.and_eq_true] at hfits
    exact ⟨Moves.month (List.mem_of_find?_eq_some hmonth) hfits.2, rfl⟩
  · exact moves_of_carryYear? h

theorem moves_of_carryDay? (h : schedule.carryDay? moment = some carry) :
    schedule.Moves moment carry ∧ carry.movesTime = false := by
  rw [carryDay?_eq] at h
  rcases eq_or_of_carries h with ⟨day, hday, rfl⟩ | h
  · obtain ⟨hnext, hlength⟩ := Option.filter_eq_some_iff.mp hday
    exact ⟨Moves.day hnext (of_decide_eq_true hlength), rfl⟩
  · exact moves_of_carryMonth? h

theorem moves_of_carryHour? (h : schedule.carryHour? moment = some carry) :
    schedule.Moves moment carry := by
  rcases eq_or_of_carries h with ⟨hour, hhour, rfl⟩ | h
  · exact Moves.hour hhour
  · exact (moves_of_carryDay? h).1

theorem moves_of_carryMinute? (h : schedule.carryMinute? moment = some carry) :
    schedule.Moves moment carry := by
  rcases eq_or_of_carries h with ⟨minute, hminute, rfl⟩ | h
  · exact Moves.minute hminute
  · exact moves_of_carryHour? h

theorem moves_of_carrySecond? (h : schedule.carrySecond? moment = some carry) :
    schedule.Moves moment carry := by
  rcases eq_or_of_carries h with ⟨second, hsecond, rfl⟩ | h
  · exact Moves.second hsecond
  · exact moves_of_carryMinute? h

/-- The cascade begins with one of five units. -/
theorem carry?_cases (schedule : Schedule) (moment : Moment) :
    schedule.carry? moment = schedule.carryMonth? moment ∨
      schedule.carry? moment = schedule.carryDay? moment ∨
      schedule.carry? moment = schedule.carryHour? moment ∨
      schedule.carry? moment = schedule.carryMinute? moment ∨
      schedule.carry? moment = schedule.carrySecond? moment := by
  unfold carry?
  dsimp only
  split
  · exact Or.inl rfl
  right
  split
  · exact Or.inl rfl
  right
  split
  · exact Or.inl rfl
  right
  split
  · exact Or.inl rfl
  · exact Or.inr rfl

theorem moves_of_carry? (h : schedule.carry? moment = some carry) :
    schedule.Moves moment carry := by
  rcases schedule.carry?_cases moment with heq | heq | heq | heq | heq <;> rw [heq] at h
  · exact (moves_of_carryMonth? h).1
  · exact (moves_of_carryDay? h).1
  · exact moves_of_carryHour? h
  · exact moves_of_carryMinute? h
  · exact moves_of_carrySecond? h

theorem Moves.isDue (h : schedule.Moves moment carry) : schedule.IsDue moment carry := by
  cases h with
  | second hvalue => exact mem_of_next?_eq_some hvalue
  | minute hvalue => exact mem_of_next?_eq_some hvalue
  | hour hvalue => exact mem_of_next?_eq_some hvalue
  | day hvalue hlength => exact ⟨mem_of_next?_eq_some hvalue, hlength⟩
  | month hmem hfits => exact ⟨hmem, rfl, hfits⟩
  | year hlater hmonth =>
    exact ⟨hlater, List.mem_of_find?_eq_some hmonth, rfl, List.find?_some hmonth⟩

/-- What holds of the carry out of a moment, and passes from each unit of the cascade to the
    coarser ones, holds of the carry into a later year, whatever unit the cascade began
    with. -/
theorem carryYear?_of_carry? {p : Option Carry → Prop}
    (hstep : ∀ (unit : Nat → Carry) (value? : Option Nat) (coarser? : Option Carry),
      (∀ value year month day, unit value ≠ .year year month day) →
        p (value?.map unit <|> coarser?) → p coarser?)
    (h : p (schedule.carry? moment)) : p (schedule.carryYear? moment) := by
  have hmonth : p (schedule.carryMonth? moment) → p (schedule.carryYear? moment) :=
    hstep _ _ _ fun _ _ _ _ => Carry.noConfusion
  have hday : p (schedule.carryDay? moment) → p (schedule.carryMonth? moment) :=
    hstep _ _ _ fun _ _ _ _ => Carry.noConfusion
  have hhour : p (schedule.carryHour? moment) → p (schedule.carryDay? moment) :=
    hstep _ _ _ fun _ _ _ _ => Carry.noConfusion
  have hminute : p (schedule.carryMinute? moment) → p (schedule.carryHour? moment) :=
    hstep _ _ _ fun _ _ _ _ => Carry.noConfusion
  have hsecond : p (schedule.carrySecond? moment) → p (schedule.carryMinute? moment) :=
    hstep _ _ _ fun _ _ _ _ => Carry.noConfusion
  rcases schedule.carry?_cases moment with heq | heq | heq | heq | heq <;> rw [heq] at h
  · exact hmonth h
  · exact hmonth (hday h)
  · exact hmonth (hday (hhour h))
  · exact hmonth (hday (hhour (hminute h)))
  · exact hmonth (hday (hhour (hminute (hsecond h))))

theorem carryYear?_eq_none (h : schedule.carry? moment = none) :
    schedule.carryYear? moment = none :=
  carryYear?_of_carry? (p := (· = none)) (fun _ _ _ _ => coarser?_eq_none) h

/-- A carry into a later year is found by the last unit. -/
theorem carryYear?_eq_some_year {year : Int} {month day : Nat}
    (h : schedule.carry? moment = some (.year year month day)) :
    schedule.carryYear? moment = some (.year year month day) := by
  refine carryYear?_of_carry? (p := (· = some (.year year month day))) ?_ h
  intro unit value? coarser? hne hunit
  rcases eq_or_of_carries hunit with ⟨value, _, heq⟩ | hcoarser
  · exact absurd heq.symm (hne value year month day)
  · exact hcoarser

namespace WellFormed

variable (hs : schedule.WellFormed)
include hs

/-! ### Carries that lead nowhere -/

theorem exists_onSameDay {hour minute second : Nat} (hhour : hour < 24) (hminute : minute < 60)
    (hsecond : second ∈ schedule.values .second) :
    ∃ next, follow?.onSameDay moment (TimeOfDay.of? hour minute second) = some next := by
  have htime : IsTimeOfDay hour minute second :=
    ⟨hhour, hminute, Nat.lt_succ_of_le (hs.bounds_of_mem hsecond).2⟩
  exact ⟨_, follow?_onSameDay (dif_pos htime)⟩

theorem exists_atFirstTime {year : Int} {month day : Nat} (hdate : IsDate year month day) :
    ∃ next, follow?.atFirstTime schedule (Date.of? year month day) = some next := by
  obtain ⟨first, hfirst, _⟩ := hs.exists_firstTime
  exact ⟨_, follow?_atFirstTime (dif_pos hdate) hfirst⟩

/-- A carry leads to a moment, unless it is one into a year past the end of the calendar. -/
theorem exists_follow?_or_past (h : schedule.IsDue moment carry) :
    (∃ next, schedule.follow? moment carry = some next) ∨
      ∃ year month day, carry = .year year month day ∧ lastYear < year := by
  obtain ⟨hyears, hmonths, _⟩ := moment.date.isDate
  obtain ⟨hhour, hminute, _⟩ := moment.time.isTimeOfDay
  have hfirst := hs.first_mem .second
  have hday := (hs.bounds_of_mem (hs.first_mem .day)).1
  have hfirstMinute := Nat.lt_succ_of_le (hs.bounds_of_mem (hs.first_mem .minute)).2
  cases carry with
  | second value => exact Or.inl (hs.exists_onSameDay hhour hminute h)
  | minute value =>
    have hvalue := Nat.lt_succ_of_le (hs.bounds_of_mem h).2
    exact Or.inl (hs.exists_onSameDay hhour hvalue hfirst)
  | hour value =>
    have hvalue := Nat.lt_succ_of_le (hs.bounds_of_mem h).2
    exact Or.inl (hs.exists_onSameDay hvalue hfirstMinute hfirst)
  | day value =>
    obtain ⟨hmem, hlength⟩ := h
    exact Or.inl (hs.exists_atFirstTime ⟨hyears, hmonths, (hs.bounds_of_mem hmem).1, hlength⟩)
  | month month day =>
    obtain ⟨hmem, rfl, hfits⟩ := h
    exact Or.inl
      (hs.exists_atFirstTime ⟨hyears, hs.bounds_of_mem hmem, hday, fits_iff.mp hfits⟩)
  | year year month day =>
    obtain ⟨hlater, hmem, rfl, hfits⟩ := h
    by_cases hlast : year ≤ lastYear
    · exact Or.inl (hs.exists_atFirstTime
        ⟨⟨hyears.1.trans hlater.le, hlast⟩, hs.bounds_of_mem hmem, hday, fits_iff.mp hfits⟩)
    · exact Or.inr ⟨year, month, _, rfl, not_le.mp hlast⟩

/-- There is no carry only where a schedule of leap days has no later one.  All other
    schedules have a month to enter in the year past the end of the calendar. -/
theorem carry?_eq_none_iff (hcan : schedule.canOccur = true) :
    schedule.carry? moment = none ↔
      schedule.successor? moment = none ∧
        schedule.values .month = [2] ∧ schedule.first .day = 29 := by
  constructor
  · intro hcarry
    refine ⟨by rw [successor?, hcarry, Option.bind_none], ?_⟩
    have hinto : schedule.carryInto? (moment.date.year + 1 + (0 : Nat)) = none :=
      List.findSome?_eq_none_iff.mp (carryYear?_eq_none hcarry) 0 (List.mem_range.mpr (by decide))
    exact hs.eq_leapDay_of_not_fits hcan (carryInto?_eq_none_iff.mp hinto)
  · rintro ⟨hnone, hmonths, hfirst⟩
    cases hcarry : schedule.carry? moment with
    | none => rfl
    | some carry =>
      have hdue := (moves_of_carry? hcarry).isDue
      rw [successor?, hcarry, Option.bind_some] at hnone
      rcases hs.exists_follow?_or_past hdue with ⟨next, hnext⟩ | ⟨year, month, day, rfl, hpast⟩
      · rw [hnone] at hnext
        cases hnext
      · -- no year past the end of the calendar has a leap day
        obtain ⟨_, hmem, _, hfits⟩ := hdue
        rw [hmonths, List.mem_singleton] at hmem
        rw [hmem, fits_iff, hfirst] at hfits
        have hleap : hasLeapDay year = false := by
          simp [hasLeapDay, not_le.mpr hpast]
        simp [daysIn, hleap] at hfits

end WellFormed

/-! ### Candidates -/

/-- The candidates that a walk tests, in order. -/
def candidates (schedule : Schedule) : (ceiling : Nat) → (candidate : Moment) → List Moment
  | 0, _ => []
  | ceiling + 1, candidate =>
    if schedule.permits candidate.reading then [candidate]
    else match schedule.successor? candidate with
      | none => [candidate]
      | some next => candidate :: schedule.candidates ceiling next

variable {candidate : Moment} {ceiling : Nat}

theorem length_candidates (schedule : Schedule) (ceiling : Nat) (candidate : Moment) :
    (schedule.candidates ceiling candidate).length = (schedule.walk ceiling candidate).tested := by
  fun_induction schedule.walk ceiling candidate with
  | case1 candidate => rfl
  | case2 ceiling candidate hpermits => simp [candidates, hpermits]
  | case3 ceiling candidate hrejects hcarry =>
    simp [candidates, hrejects, successor?, hcarry]
  | case4 ceiling candidate hrejects carry hcarry hfollow =>
    simp [candidates, hrejects, successor?, hcarry, hfollow]
  | case5 ceiling candidate hrejects carry hcarry next hfollow rest ih =>
    simp [candidates, hrejects, successor?, hcarry, hfollow, ih, rest]

/-! ### The end of the trail -/

theorem tested_walk_of_found {found : Moment} :
    (schedule.walk ceiling candidate).found? = some found →
      (schedule.walk ceiling candidate).tested =
        (schedule.walk ceiling candidate).carries.length + 1 := by
  fun_induction schedule.walk ceiling candidate with
  | case1 candidate => intro h; cases h
  | case2 ceiling candidate hpermits => intro _; rfl
  | case3 ceiling candidate hrejects hcarry => intro h; cases h
  | case4 ceiling candidate hrejects carry hcarry hfollow => intro h; cases h
  | case5 ceiling candidate hrejects carry hcarry next hfollow rest ih =>
    intro h
    exact congrArg (· + 1) (ih h)

/-- Whether no carry was taken out of the last candidate of a walk. -/
def endsWithoutCarry (schedule : Schedule) (ceiling : Nat) (candidate : Moment) : Bool :=
  (schedule.candidates ceiling candidate).getLast?.any fun last => (schedule.carry? last).isNone

theorem any_getLast?_cons {α : Type} {p : α → Bool} {a : α} {l : List α} (h : p a = false) :
    (a :: l).getLast?.any p = l.getLast?.any p := by
  cases l with
  | nil => simp [h]
  | cons b l => rw [List.getLast?_cons_cons]

/-- A walk that finds nothing has taken a carry out of every candidate, with the possible
    exception of the last one. -/
theorem tested_walk_of_not_found :
    (schedule.walk ceiling candidate).found? = none →
      (schedule.walk ceiling candidate).tested =
        (schedule.walk ceiling candidate).carries.length +
          (schedule.endsWithoutCarry ceiling candidate).toNat := by
  unfold endsWithoutCarry
  fun_induction schedule.walk ceiling candidate with
  | case1 candidate => intro _; rfl
  | case2 ceiling candidate hpermits => intro h; cases h
  | case3 ceiling candidate hrejects hcarry =>
    intro _
    simp [candidates, hrejects, successor?, hcarry]
  | case4 ceiling candidate hrejects carry hcarry hfollow =>
    intro _
    simp [candidates, hrejects, successor?, hcarry, hfollow]
  | case5 ceiling candidate hrejects carry hcarry next hfollow rest ih =>
    intro h
    have hcandidates : schedule.candidates (ceiling + 1) candidate =
        candidate :: schedule.candidates ceiling next := by
      simp [candidates, hrejects, successor?, hcarry, hfollow]
    have hlast := ih h
    rw [hcandidates, any_getLast?_cons (by simp [hcarry])]
    change (schedule.walk ceiling next).tested + 1 =
      (schedule.walk ceiling next).carries.length + 1 + _
    omega

theorem WellFormed.endsWithoutCarry_iff (hs : schedule.WellFormed)
    (hcan : schedule.canOccur = true) :
    schedule.endsWithoutCarry ceiling candidate = true ↔
      (∃ last ∈ (schedule.candidates ceiling candidate).getLast?,
          schedule.successor? last = none) ∧
        schedule.values .month = [2] ∧ schedule.first .day = 29 := by
  rw [endsWithoutCarry, Option.any_eq_true]
  simp only [Option.isNone_iff_eq_none, hs.carry?_eq_none_iff hcan]
  constructor
  · rintro ⟨last, hlast, hnone, hleap⟩
    exact ⟨⟨last, hlast, hnone⟩, hleap⟩
  · rintro ⟨⟨last, hlast, hnone⟩, hleap⟩
    exact ⟨last, hlast, hnone, hleap⟩

/-! ### Carries that move the time -/

theorem carries_walk_of_permits (ceiling : Nat) (h : schedule.permits candidate.reading = true) :
    (schedule.walk ceiling candidate).carries = [] := by
  cases ceiling with
  | zero => rfl
  | succ ceiling => simp [walk, h]

namespace WellFormed

variable (hs : schedule.WellFormed)
include hs

section NoLater

variable (hlater : schedule.IsScheduled moment.date → schedule.PermitsWeekday moment.date →
  ∀ t, schedule.PermitsTime t → t ≤ moment.time)
include hlater

/-- Out of a date that has no permitted time left, no carry moves the time. -/
theorem movesTime_of_no_later (h : schedule.carry? moment = some carry) :
    carry.movesTime = false := by
  by_cases hdate : schedule.IsScheduled moment.date ∧ schedule.PermitsWeekday moment.date
  · rcases hs.carriesTime_carry? hdate.1 hdate.2 with ⟨time, _, hleast⟩ | ⟨_, hcarry⟩
    · exact absurd hleast.1.2 (hlater hdate.1 hdate.2 time hleast.1.1).not_gt
    · exact (moves_of_carryDay? (hcarry.symm.trans h)).2
  · by_cases hmonth : moment.date.month ∈ schedule.values .month
    · rw [carry?_eq_carryDay? hmonth hdate] at h
      exact (moves_of_carryDay? h).2
    · rw [carry?_eq_carryMonth? hmonth] at h
      exact (moves_of_carryMonth? h).2

/-- It leads to the first permitted time of a scheduled date. -/
theorem firstTime_of_no_later {next : Moment} (h : schedule.carry? moment = some carry)
    (hfollow : schedule.follow? moment carry = some next) :
    schedule.IsScheduled next.date ∧ IsLeast {t | schedule.PermitsTime t} next.time := by
  have hcarries := hs.carriesDate_of_no_later hlater
  rw [h] at hcarries
  rcases hcarries with ⟨date, first, hnext, hfirst, hleast⟩ | ⟨_, hnone⟩
  · obtain rfl : next = ⟨date, first⟩ := Option.some.inj (hfollow.symm.trans hnext)
    obtain ⟨first', hfirst', htime⟩ := hs.exists_firstTime
    obtain rfl : first' = first := Option.some.inj (hfirst'.symm.trans hfirst)
    exact ⟨hleast.1.1, htime⟩
  · exact absurd (hfollow.symm.trans hnone) (Option.some_ne_none next)

/-- A walk that leaves the date of its candidate never moves the time again: each candidate
    on its way has the first time of a scheduled date, so only the weekday can reject it. -/
theorem movesTime_walk_of_no_later :
    ∀ carry ∈ (schedule.walk ceiling moment).carries, carry.movesTime = false := by
  fun_induction schedule.walk ceiling moment with
  | case1 moment => exact List.forall_mem_nil _
  | case2 ceiling moment hpermits => exact List.forall_mem_nil _
  | case3 ceiling moment hrejects hcarry => exact List.forall_mem_nil _
  | case4 ceiling moment hrejects carry hcarry hfollow =>
    rw [List.forall_mem_singleton]
    exact hs.movesTime_of_no_later hlater hcarry
  | case5 ceiling moment hrejects carry hcarry next hfollow rest ih =>
    rw [List.forall_mem_cons]
    refine ⟨hs.movesTime_of_no_later hlater hcarry, ?_⟩
    by_cases hpermits : schedule.permits next.reading = true
    · have hrest : rest.carries = [] := carries_walk_of_permits ceiling hpermits
      rw [hrest]
      exact List.forall_mem_nil _
    · apply ih
      intro _ hweekday
      obtain ⟨hdate, hfirst⟩ := hs.firstTime_of_no_later hlater hcarry hfollow
      exact absurd (permits_reading_iff.mpr ⟨hdate, hweekday, hfirst.1⟩) hpermits

end NoLater

/-- A walk that stays on the date of its candidate takes one carry at most, because that
    carry leads to a permitted moment. -/
theorem eq_singleton_of_time (hdate : schedule.IsScheduled candidate.date)
    (hweekday : schedule.PermitsWeekday candidate.date) {time : TimeOfDay}
    (htime : IsLeast {t | schedule.PermitsTime t ∧ candidate.time < t} time) :
    carry ∈ (schedule.walk ceiling candidate).carries →
      (schedule.walk ceiling candidate).carries = [carry] := by
  have hsuccessor := hs.successor?_eq_of_time hdate hweekday htime
  fun_cases schedule.walk ceiling candidate with
  | case1 candidate => exact fun hmem => absurd hmem List.not_mem_nil
  | case2 ceiling candidate hpermits => exact fun hmem => absurd hmem List.not_mem_nil
  | case3 ceiling candidate hrejects hcarry => exact fun hmem => absurd hmem List.not_mem_nil
  | case4 ceiling candidate hrejects only hcarry hfollow =>
    intro hmem
    rw [List.mem_singleton.mp hmem]
  | case5 ceiling candidate hrejects only hcarry next hfollow rest =>
    intro hmem
    rw [successor?, hcarry, Option.bind_some, hfollow] at hsuccessor
    cases hsuccessor
    have hpermits : schedule.permits (Moment.reading ⟨candidate.date, time⟩) = true :=
      permits_reading_iff.mpr ⟨hdate, hweekday, htime.1.1⟩
    have hrest : rest.carries = [] := carries_walk_of_permits ceiling hpermits
    simp only [hrest, List.mem_singleton] at hmem ⊢
    rw [hmem]

/-- A carry that moves the time is the only one of its walk. -/
theorem eq_singleton_of_movesTime (hmem : carry ∈ (schedule.walk ceiling candidate).carries)
    (hmoves : carry.movesTime = true) : (schedule.walk ceiling candidate).carries = [carry] := by
  by_cases hlater : schedule.IsScheduled candidate.date → schedule.PermitsWeekday candidate.date →
      ∀ t, schedule.PermitsTime t → t ≤ candidate.time
  · rw [hs.movesTime_walk_of_no_later hlater carry hmem] at hmoves
    cases hmoves
  · push Not at hlater
    obtain ⟨hdate, hweekday, htimes⟩ := hlater
    obtain ⟨time, htime⟩ :=
      exists_isLeast (s := {t | schedule.PermitsTime t ∧ candidate.time < t}) htimes
    exact hs.eq_singleton_of_time hdate hweekday htime hmem

end WellFormed

end Schedule

end Cron
