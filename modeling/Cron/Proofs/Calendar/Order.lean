/-
  Cron/Proofs/Calendar/Order.lean
  ===============================
  **The order of dates, moments and instants.**

  Dates are ordered by their day numbers, times of day and moments by their seconds.
  All three orders are the ones that a reader of calendars expects: a date precedes
  another when its year does, or in the same year its month, or in the same month
  its day (`Date.lt_iff`), and a moment precedes another when its date does, or on
  the same date its time (`Moment.lt_iff`).  An instant adds nanoseconds as the last
  thing to compare, so the whole seconds after an instant are those after the moment
  that it lies in (`Instant.lt_ofMoment_iff`).
-/
import Cron.Calendar.Instant
import Mathlib.Data.Set.Card
import Mathlib.Data.Set.Finite.Lemmas
import Mathlib.Data.Int.Interval
import Mathlib.Order.Bounds.Basic

namespace Cron.Calendar

/-- In a finite order every condition that is ever met is first met somewhere. -/
theorem exists_isLeast {α : Type} [LinearOrder α] [Finite α] {s : Set α} (h : s.Nonempty) :
    ∃ first, IsLeast s first := by
  obtain ⟨first, hmem, hleast⟩ := Set.exists_min_image s id s.toFinite h
  exact ⟨first, hmem, hleast⟩

/-! ### Years -/

/-- The number of the day before a year begins. -/
def yearStart (year : Int) : Int :=
  365 * (year - 1) + (year - 1) / 4 - (year - 1) / 100 + (year - 1) / 400

theorem isLeapYear_iff {year : Int} :
    isLeapYear year = true ↔ year % 4 = 0 ∧ (year % 100 ≠ 0 ∨ year % 400 = 0) := by
  simp [isLeapYear]

theorem yearStart_succ (year : Int) :
    yearStart (year + 1) = yearStart year + if isLeapYear year then 366 else 365 := by
  unfold yearStart
  split
  · rename_i h
    rw [isLeapYear_iff] at h
    omega
  · rename_i h
    rw [isLeapYear_iff] at h
    omega

theorem yearStart_mono {year later : Int} (h : year ≤ later) :
    yearStart year ≤ yearStart later := by
  refine monotone_int_of_le_succ (fun year => ?_) h
  rw [yearStart_succ]
  split <;> omega

theorem yearStart_add_le (year : Int) (count : Nat) :
    yearStart (year + count) ≤ yearStart year + 366 * count := by
  induction count with
  | zero => simp
  | succ count ih =>
    have hsucc := yearStart_succ (year + count)
    push_cast
    rw [← Int.add_assoc, hsucc]
    split <;> omega

/-! ### Months -/

theorem daysIn_le (year : Int) (month : Nat) : daysIn year month ≤ longestMonth month := by
  unfold daysIn
  split
  · rename_i h
    have hmonth : month = 2 := by simp at h; exact h.1
    simp [hmonth, longestMonth]
  · exact le_refl _

theorem longestMonth_le (month : Nat) : longestMonth month ≤ 31 := by
  unfold longestMonth
  split <;> decide

/-- A day of one month comes before all days of a later month. -/
theorem daysBefore_add_le {year : Int} {month later day : Nat} (hmonth : 1 ≤ month)
    (hlater : month < later) (hday : day ≤ daysIn year month) :
    daysBefore year month + day ≤ daysBefore year later := by
  induction later, hlater using Nat.le_induction with
  | base =>
    rw [daysBefore_succ year hmonth]
    omega
  | succ later hle ih =>
    rw [daysBefore_succ year (by omega)]
    omega

/-- The days of a year before and with a day are no more than the year has. -/
theorem daysBefore_add_le_length {year : Int} {month day : Nat} (hmonth : 1 ≤ month)
    (hlast : month ≤ 12) (hday : day ≤ daysIn year month) :
    daysBefore year month + day ≤ if hasLeapDay year then 366 else 365 := by
  rw [← daysBefore_add_daysIn_december]
  rcases Nat.lt_or_eq_of_le hlast with hlt | rfl
  · have h := daysBefore_add_le hmonth hlt hday
    omega
  · omega

/-! ### Dates -/

namespace Date

variable {a b : Date}

instance : LT Date := ⟨fun left right => left.dayNumber < right.dayNumber⟩

instance : LE Date := ⟨fun left right => left.dayNumber ≤ right.dayNumber⟩

instance (left right : Date) : Decidable (left < right) :=
  inferInstanceAs (Decidable (left.dayNumber < right.dayNumber))

instance (left right : Date) : Decidable (left ≤ right) :=
  inferInstanceAs (Decidable (left.dayNumber ≤ right.dayNumber))

theorem lt_def : a < b ↔ a.dayNumber < b.dayNumber := Iff.rfl

theorem dayNumber_eq (date : Date) :
    date.dayNumber =
      yearStart date.year + (daysBefore date.year date.month + date.day : Nat) := by
  simp only [dayNumber, yearStart]
  push_cast
  omega

/-- A date is one of the days that its year has. -/
theorem yearStart_lt_dayNumber (date : Date) :
    yearStart date.year < date.dayNumber ∧ date.dayNumber ≤ yearStart (date.year + 1) := by
  obtain ⟨_, ⟨hfirst, hlast⟩, hone, hday⟩ := date.isDate
  have hlength := daysBefore_add_le_length hfirst hlast hday
  rw [hasLeapDay_eq] at hlength
  rw [dayNumber_eq, yearStart_succ]
  split at hlength <;> simp_all <;> omega

/-- The order in which calendars are read. -/
def Precedes (a b : Date) : Prop :=
  a.year < b.year ∨
    a.year = b.year ∧ (a.month < b.month ∨ a.month = b.month ∧ a.day < b.day)

theorem lt_of_precedes (h : a.Precedes b) : a < b := by
  rw [lt_def]
  rcases h with hyear | ⟨hyear, hmonth | ⟨hmonth, hday⟩⟩
  · have hmono := yearStart_mono (show a.year + 1 ≤ b.year by omega)
    have ha := a.yearStart_lt_dayNumber
    have hb := b.yearStart_lt_dayNumber
    omega
  · obtain ⟨_, ⟨hfirst, _⟩, _, hday⟩ := a.isDate
    obtain ⟨_, _, hone, _⟩ := b.isDate
    have hbefore := daysBefore_add_le hfirst hmonth hday
    rw [dayNumber_eq, dayNumber_eq, ← hyear]
    omega
  · rw [dayNumber_eq, dayNumber_eq, ← hyear, ← hmonth]
    omega

theorem precedes_or_eq_or_precedes (a b : Date) : a.Precedes b ∨ a = b ∨ b.Precedes a := by
  by_cases heq : a.year = b.year ∧ a.month = b.month ∧ a.day = b.day
  · right; left
    cases a
    cases b
    simp_all
  · unfold Precedes
    omega

theorem dayNumber_injective : Function.Injective dayNumber := by
  intro a b h
  rcases precedes_or_eq_or_precedes a b with hlt | heq | hlt
  · exact absurd h (lt_of_precedes hlt).ne
  · exact heq
  · exact absurd h.symm (lt_of_precedes hlt).ne

instance : LinearOrder Date where
  le_refl date := le_refl date.dayNumber
  le_trans _ _ _ := Int.le_trans
  lt_iff_le_not_ge _ _ := Int.lt_iff_le_and_not_ge
  le_antisymm _ _ hle hge := dayNumber_injective (Int.le_antisymm hle hge)
  le_total a b := Int.le_total a.dayNumber b.dayNumber
  toDecidableLE := inferInstance
  toDecidableEq := inferInstance
  toDecidableLT := inferInstance

theorem lt_iff : a < b ↔
    a.year < b.year ∨
      a.year = b.year ∧ (a.month < b.month ∨ a.month = b.month ∧ a.day < b.day) := by
  constructor
  · intro h
    rcases precedes_or_eq_or_precedes a b with hlt | rfl | hlt
    · exact hlt
    · exact absurd h (lt_irrefl _)
    · exact absurd h (lt_of_precedes hlt).asymm
  · exact lt_of_precedes

theorem year_le (h : a ≤ b) : a.year ≤ b.year := by
  rcases h.lt_or_eq with hlt | rfl
  · rw [lt_iff] at hlt
    omega
  · exact le_refl _

/-- Between two dates lie at most 366 days for each year that one of them is in. -/
theorem dayNumber_sub_le {count : Nat} (h : b.year < a.year + count) :
    b.dayNumber - a.dayNumber ≤ 366 * count := by
  have hmono := yearStart_mono (show b.year + 1 ≤ a.year + count by omega)
  have hadd := yearStart_add_le a.year count
  have ha := a.yearStart_lt_dayNumber
  have hb := b.yearStart_lt_dayNumber
  omega

/-- The day numbers of the calendar run from that of its first year's start. -/
theorem dayNumber_bounds (date : Date) :
    yearStart firstYear ≤ date.dayNumber ∧ date.dayNumber ≤ yearStart (lastYear + 1) := by
  obtain ⟨⟨hfirst, hlast⟩, _⟩ := date.isDate
  have hdate := date.yearStart_lt_dayNumber
  have hopens := yearStart_mono hfirst
  have hcloses := yearStart_mono (Int.add_le_add_right hlast 1)
  exact ⟨hopens.trans hdate.1.le, hdate.2.trans hcloses⟩

instance : Finite Date := by
  apply Finite.of_injective fun date : Date =>
    (⟨date.dayNumber, date.dayNumber_bounds⟩ : Set.Icc _ _)
  intro a b h
  exact dayNumber_injective (congrArg Subtype.val h)

theorem le_of_next?_eq_none (h : a.next? = none) (b : Date) : b ≤ a := by
  obtain ⟨hyear, hmonth, hday⟩ := next?_eq_none_iff.mp h
  obtain ⟨⟨_, hlast⟩, ⟨_, hmonths⟩, _, hdays⟩ := b.isDate
  have hlong := (daysIn_le b.year b.month).trans (longestMonth_le b.month)
  rw [← not_lt, lt_iff]
  omega

end Date

/-! ### Times of day -/

namespace TimeOfDay

variable {a b : TimeOfDay}

instance : LT TimeOfDay := ⟨fun left right => left.toSeconds < right.toSeconds⟩

instance : LE TimeOfDay := ⟨fun left right => left.toSeconds ≤ right.toSeconds⟩

instance (left right : TimeOfDay) : Decidable (left < right) :=
  inferInstanceAs (Decidable (left.toSeconds < right.toSeconds))

instance (left right : TimeOfDay) : Decidable (left ≤ right) :=
  inferInstanceAs (Decidable (left.toSeconds ≤ right.toSeconds))

theorem lt_def : a < b ↔ a.toSeconds < b.toSeconds := Iff.rfl

theorem toSeconds_injective : Function.Injective toSeconds := by
  intro a b h
  obtain ⟨_, hminute, hsecond⟩ := a.isTimeOfDay
  obtain ⟨_, hminute', hsecond'⟩ := b.isTimeOfDay
  unfold toSeconds at h
  have heq : a.hour = b.hour ∧ a.minute = b.minute ∧ a.second = b.second := by omega
  cases a
  cases b
  simp_all

instance : LinearOrder TimeOfDay where
  le_refl time := le_refl time.toSeconds
  le_trans _ _ _ := Nat.le_trans
  lt_iff_le_not_ge _ _ := Nat.lt_iff_le_and_not_ge
  le_antisymm _ _ hle hge := toSeconds_injective (Nat.le_antisymm hle hge)
  le_total a b := Nat.le_total a.toSeconds b.toSeconds
  toDecidableLE := inferInstance
  toDecidableEq := inferInstance
  toDecidableLT := inferInstance

theorem lt_iff : a < b ↔
    a.hour < b.hour ∨
      a.hour = b.hour ∧ (a.minute < b.minute ∨ a.minute = b.minute ∧ a.second < b.second) := by
  obtain ⟨_, hminute, hsecond⟩ := a.isTimeOfDay
  obtain ⟨_, hminute', hsecond'⟩ := b.isTimeOfDay
  rw [lt_def]
  unfold toSeconds
  omega

instance : Finite TimeOfDay := by
  apply Finite.of_injective fun time : TimeOfDay => (⟨time.toSeconds, time.toSeconds_lt⟩ : Fin _)
  intro a b h
  exact toSeconds_injective (Fin.mk.inj h)

end TimeOfDay

/-! ### Moments and instants -/

namespace Moment

variable {a b : Moment}

theorem lt_iff : a < b ↔ a.date < b.date ∨ a.date = b.date ∧ a.time < b.time := by
  have ha := a.time.toSeconds_lt
  have hb := b.time.toSeconds_lt
  have hdate : a.date = b.date ↔ a.date.dayNumber = b.date.dayNumber :=
    Date.dayNumber_injective.eq_iff.symm
  rw [hdate, Date.lt_def, TimeOfDay.lt_def]
  change a.toSeconds < b.toSeconds ↔ _
  unfold toSeconds TimeOfDay.secondsPerDay at *
  omega

theorem toSeconds_injective : Function.Injective toSeconds := by
  intro a b h
  have hlt : ¬ a < b := h.not_lt
  have hgt : ¬ b < a := h.not_gt
  rw [lt_iff] at hlt hgt
  push Not at hlt hgt
  have hdate : a.date = b.date := le_antisymm hgt.1 hlt.1
  have htime : a.time = b.time := le_antisymm (hgt.2 hdate.symm) (hlt.2 hdate)
  cases a
  cases b
  simp_all

instance : LinearOrder Moment where
  le_refl moment := le_refl moment.toSeconds
  le_trans _ _ _ := Int.le_trans
  lt_iff_le_not_ge _ _ := Int.lt_iff_le_and_not_ge
  le_antisymm _ _ hle hge := toSeconds_injective (Int.le_antisymm hle hge)
  le_total a b := Int.le_total a.toSeconds b.toSeconds
  toDecidableLE := inferInstance
  toDecidableEq := inferInstance
  toDecidableLT := inferInstance

theorem le_iff : a ≤ b ↔ a.date < b.date ∨ a.date = b.date ∧ a.time ≤ b.time := by
  rw [← not_lt, lt_iff]
  constructor
  · intro h
    push Not at h
    rcases h.1.lt_or_eq with hlt | heq
    · exact Or.inl hlt
    · exact Or.inr ⟨heq, h.2 heq.symm⟩
  · rintro (hlt | ⟨heq, hle⟩) (hgt | ⟨_, hgt⟩)
    · exact hlt.asymm hgt
    · simp_all
    · simp_all
    · exact not_lt.mpr hle hgt

theorem date_le (h : a ≤ b) : a.date ≤ b.date := by
  rcases le_iff.mp h with hlt | ⟨heq, _⟩
  · exact hlt.le
  · exact heq.le

instance : Finite Moment := by
  apply Finite.of_injective fun moment : Moment => (moment.date, moment.time)
  intro a b h
  cases a
  cases b
  simp_all

/-- What comes after a moment begins with the next one. -/
theorem next_le_iff {next : Moment} (h : a.next? = some next) : next ≤ b ↔ a < b := by
  have hseconds := toSeconds_of_next?_eq_some h
  change next.toSeconds ≤ b.toSeconds ↔ a.toSeconds < b.toSeconds
  omega

theorem le_of_next?_eq_none (h : a.next? = none) (b : Moment) : b ≤ a := by
  unfold next? at h
  split at h
  · cases h
  · rename_i htime
    have hdate := Date.le_of_next?_eq_none (Option.map_eq_none_iff.mp h) b.date
    have hlast := TimeOfDay.next?_eq_none_iff.mp htime
    have hlt := b.time.toSeconds_lt
    change b.date.dayNumber ≤ a.date.dayNumber at hdate
    change b.toSeconds ≤ a.toSeconds
    unfold toSeconds TimeOfDay.secondsPerDay at *
    omega

/-- Only the last moment of the calendar has no next one. -/
theorem next?_eq_none_iff_isTop : a.next? = none ↔ IsTop a := by
  refine ⟨le_of_next?_eq_none, fun htop => ?_⟩
  cases hnext : a.next? with
  | none => rfl
  | some next => exact absurd (htop next) ((next_le_iff hnext).mp (le_refl next)).not_ge

theorem exists_next?_of_lt (h : a < b) : ∃ next, a.next? = some next := by
  cases hnext : a.next? with
  | none => exact absurd h (le_of_next?_eq_none hnext b).not_gt
  | some next => exact ⟨next, rfl⟩

end Moment

namespace Instant

/-- Instants are compared by their moments, then by their nanoseconds. -/
instance : LT Instant :=
  ⟨fun left right =>
    left.moment < right.moment ∨ left.moment = right.moment ∧ left.nanos < right.nanos⟩

instance : LE Instant :=
  ⟨fun left right =>
    left.moment < right.moment ∨ left.moment = right.moment ∧ left.nanos ≤ right.nanos⟩

theorem moment_le {a b : Instant} (h : a ≤ b) : a.moment ≤ b.moment := by
  rcases h with hlt | ⟨heq, _⟩
  · exact hlt.le
  · exact heq.le

/-- A whole second is later than an instant when it is later than the second, long or
    short, that the instant lies in. -/
theorem lt_ofMoment_iff {start : Instant} {moment : Moment} :
    start < ofMoment moment ↔ start.moment < moment := by
  constructor
  · rintro (hlt | ⟨_, hnanos⟩)
    · exact hlt
    · exact absurd hnanos (Nat.not_lt_zero _)
  · exact Or.inl

end Instant

end Cron.Calendar
