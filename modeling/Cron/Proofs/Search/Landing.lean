/-
  Cron/Proofs/Search/Landing.lean
  ===============================
  **What could go wrong on the way and never does.**

  The search asks the calendar for dates and times by their numbers, and has an answer
  ready for numbers that name none.  A schedule that was read from a text gives it no such
  numbers: every field permits something, and all of it is within bounds.

  There is one exception, the end of the calendar.  Past it all years have months of the
  same lengths, so the search never looks beyond the first of them, 262143: a carry that
  leads nowhere is one into that year (`WellFormed.lands_iff`).
-/
import Cron.Proofs.Search.Trail

namespace Cron

open Cron.Calendar

namespace Schedule

/-- Whether there is the date or the time that a carry asks for. -/
def Lands (schedule : Schedule) (moment : Moment) : Carry → Prop
  | .second value => (TimeOfDay.of? moment.time.hour moment.time.minute value).isSome
  | .minute value => (TimeOfDay.of? moment.time.hour value (schedule.first .second)).isSome
  | .hour value =>
    (TimeOfDay.of? value (schedule.first .minute) (schedule.first .second)).isSome
  | .day value => (Date.of? moment.date.year moment.date.month value).isSome
  | .month month day => (Date.of? moment.date.year month day).isSome
  | .year year month day => (Date.of? year month day).isSome

variable {schedule : Schedule} {moment : Moment} {carry : Carry}

/-! ### The year after the calendar -/

/-- Past the end of the calendar a month has the same length in every year. -/
theorem fits_of_past {year other : Int} {month : Nat} (hyear : lastYear < year)
    (hother : lastYear < other) (h : schedule.fits year month = true) :
    schedule.fits other month = true := by
  have hleap : hasLeapDay other = hasLeapDay year := by
    simp [hasLeapDay, not_le.mpr hyear, not_le.mpr hother]
  rw [fits_iff] at h ⊢
  rw [daysIn, hleap]
  exact h

/-- So a carry past the end leads to the first year there. -/
theorem year_eq_of_past {year : Int} {month day : Nat}
    (h : schedule.carry? moment = some (.year year month day)) (hpast : lastYear < year) :
    year = lastYear + 1 := by
  obtain ⟨n, hinto, hbefore⟩ := WellFormed.carryYear?_eq_some (carryYear?_eq_some_year h)
  obtain ⟨hmem, _, hfits⟩ := (moves_of_carry? h).isDue.2
  obtain ⟨_, _, heq⟩ := Option.map_eq_some_iff.mp hinto
  have hyear : year = moment.date.year + 1 + n := (Carry.year.inj heq).1.symm
  have hcloses := moment.date.isDate.1.2
  by_contra hne
  -- the first year past the end was looked at before, and has no month to enter
  have hnone := hbefore (lastYear - moment.date.year).toNat (by omega)
  have hfirst : moment.date.year + 1 + (lastYear - moment.date.year).toNat = lastYear + 1 := by
    omega
  rw [hfirst, WellFormed.carryInto?_eq_none_iff] at hnone
  exact hnone month hmem (fits_of_past hpast (by omega) hfits)

/-! ### Carries that land -/

theorem lands_of_follow? {next : Moment} (h : schedule.follow? moment carry = some next) :
    schedule.Lands moment carry := by
  have htime {time? : Option TimeOfDay} (h : follow?.onSameDay moment time? = some next) :
      time?.isSome := by
    cases time? with
    | none => cases h
    | some time => rfl
  have hdate {date? : Option Date} (h : follow?.atFirstTime schedule date? = some next) :
      date?.isSome := by
    cases date? with
    | none => cases h
    | some date => rfl
  cases carry with
  | second value => exact htime h
  | minute value => exact htime h
  | hour value => exact htime h
  | day value => exact hdate h
  | month month day => exact hdate h
  | year year month day => exact hdate h

/-- Year 262143 has no dates. -/
theorem not_lands_of_past {month day : Nat} : ¬ schedule.Lands moment (.year 262143 month day) := by
  have hdate : Date.of? 262143 month day = none :=
    Date.of?_eq_none_iff.mpr fun h => absurd h.1.2 (by decide)
  simp [Lands, hdate]

namespace WellFormed

variable (hs : schedule.WellFormed)
include hs

/-- A carry leads to a moment, unless it is one into the year after the calendar. -/
theorem exists_follow?_or_pastYear (h : schedule.carry? moment = some carry) :
    (∃ next, schedule.follow? moment carry = some next) ∨
      ∃ month day, carry = .year 262143 month day := by
  rcases hs.exists_follow?_or_past (moves_of_carry? h).isDue with
    hnext | ⟨year, month, day, rfl, hpast⟩
  · exact Or.inl hnext
  · obtain rfl : year = 262143 := year_eq_of_past h hpast
    exact Or.inr ⟨month, day, rfl⟩

theorem lands_iff (h : schedule.carry? moment = some carry) :
    schedule.Lands moment carry ↔ ∀ month day, carry ≠ .year 262143 month day := by
  constructor
  · rintro hlands month day rfl
    exact not_lands_of_past hlands
  · intro hne
    rcases hs.exists_follow?_or_pastYear h with ⟨next, hnext⟩ | ⟨month, day, rfl⟩
    · exact lands_of_follow? hnext
    · exact absurd rfl (hne month day)

theorem follow?_eq_none_iff (h : schedule.carry? moment = some carry) :
    schedule.follow? moment carry = none ↔ ∃ month day, carry = .year 262143 month day := by
  constructor
  · intro hnone
    rcases hs.exists_follow?_or_pastYear h with ⟨next, hnext⟩ | hpast
    · rw [hnone] at hnext
      cases hnext
    · exact hpast
  · rintro ⟨month, day, rfl⟩
    by_contra hsome
    obtain ⟨next, hnext⟩ := Option.ne_none_iff_exists'.mp hsome
    exact not_lands_of_past (lands_of_follow? hnext)

/-- The smallest permitted value is one that is permitted, and not the one that stands in
    where none is. -/
theorem head?_values (field : Field) :
    (schedule.values field).head? = some (schedule.first field) := by
  rw [first]
  cases hvalues : schedule.values field with
  | nil => exact absurd hvalues (hs.nonempty field)
  | cons value values => rfl

end WellFormed

/-- **No answer is made up.**  A schedule that was read from a text permits something in every
    field and nothing beyond its bounds.  So its smallest values and its first time of day
    are its own; each carry asks for a time or a date that there is, unless it is one into
    the year after the calendar; and a search can start from whole seconds, be it within a
    leap second. -/
theorem lands_of_parse {text : String} (h : Schedule.parse text = .ok schedule) :
    (∀ field, schedule.values field ≠ [] ∧
      ∀ value ∈ schedule.values field, field.bounds.contains value = true) ∧
    (∀ field, (schedule.values field).head? = some (schedule.first field)) ∧
    (∃ first, schedule.firstTime? = some first) ∧
    (∀ moment carry, schedule.carry? moment = some carry →
      (schedule.Lands moment carry ↔ ∀ month day, carry ≠ .year 262143 month day) ∧
      (schedule.follow? moment carry = none ↔ ∃ month day, carry = .year 262143 month day)) ∧
    ∀ start : Instant, start.withNanos? 0 = some (Instant.ofMoment start.moment) := by
  have hs := wellFormed_of_parse h
  obtain ⟨first, hfirst, _⟩ := hs.exists_firstTime
  refine ⟨fun field => ⟨hs.nonempty field, hs.bounded field⟩, hs.head?_values, ⟨first, hfirst⟩,
    fun moment carry hcarry => ⟨hs.lands_iff hcarry, hs.follow?_eq_none_iff hcarry⟩, ?_⟩
  exact Instant.withNanos?_zero

/-- Out of the last year of the calendar the next New Year is one that there is not.  A year
    earlier there is one. -/
theorem lands_newYear :
    let newYear : Schedule := ⟨[0], [0], [0], [1], [1], List.range 7⟩
    let last : Moment := ⟨⟨262142, 6, 15, by decide⟩, TimeOfDay.midnight⟩
    let earlier : Moment := ⟨⟨262141, 6, 15, by decide⟩, TimeOfDay.midnight⟩
    Schedule.parse "0 0 0 1 jan *" = .ok newYear ∧
      newYear.carry? last = some (.year 262143 1 1) ∧
      ¬ newYear.Lands last (.year 262143 1 1) ∧
      newYear.carry? earlier = some (.year 262142 1 1) ∧
      newYear.Lands earlier (.year 262142 1 1) := by
  intro newYear last earlier
  have hparse : Schedule.parse "0 0 0 1 jan *" = .ok newYear := by decide +kernel
  have hlast : newYear.carry? last = some (.year 262143 1 1) := by decide +kernel
  have hearlier : newYear.carry? earlier = some (.year 262142 1 1) := by decide +kernel
  obtain ⟨_, _, _, hcarries, _⟩ := lands_of_parse hparse
  refine ⟨hparse, hlast, ?_, hearlier, ?_⟩
  · rw [(hcarries last _ hlast).1]
    exact fun hne => hne 1 1 rfl
  · rw [(hcarries earlier _ hearlier).1]
    intro month day heq
    cases heq

end Schedule

end Cron
