/-
  Cron/Calendar/TimeOfDay.lean
  ============================
  **Times of day, in whole seconds.**

  A day has 24 hours of 60 minutes of 60 seconds.  Leap seconds are no times of
  day of their own.
-/

namespace Cron.Calendar

/-- Whether an hour, a minute and a second name a second of the day. -/
def IsTimeOfDay (hour minute second : Nat) : Prop := hour < 24 ∧ minute < 60 ∧ second < 60

instance (hour minute second : Nat) : Decidable (IsTimeOfDay hour minute second) :=
  inferInstanceAs (Decidable (_ ∧ _))

structure TimeOfDay where
  hour : Nat
  minute : Nat
  second : Nat
  isTimeOfDay : IsTimeOfDay hour minute second
deriving DecidableEq, Repr

namespace TimeOfDay

/-- The time that an hour, a minute and a second name, when they name one. -/
def of? (hour minute second : Nat) : Option TimeOfDay :=
  if h : IsTimeOfDay hour minute second then some ⟨hour, minute, second, h⟩ else none

theorem of?_eq_none_iff {hour minute second : Nat} :
    of? hour minute second = none ↔ ¬ IsTimeOfDay hour minute second := by
  by_cases h : IsTimeOfDay hour minute second <;> simp [of?, h]

theorem of?_eq_some_iff {hour minute second : Nat} {time : TimeOfDay} :
    of? hour minute second = some time ↔
      time.hour = hour ∧ time.minute = minute ∧ time.second = second := by
  constructor
  case mp =>
    intro h
    unfold of? at h
    split at h
    case isTrue => cases h; exact ⟨rfl, rfl, rfl⟩
    case isFalse => cases h
  case mpr =>
    rintro ⟨rfl, rfl, rfl⟩
    exact dif_pos time.isTimeOfDay

def midnight : TimeOfDay := ⟨0, 0, 0, by decide⟩

def toSeconds (time : TimeOfDay) : Nat := (time.hour * 60 + time.minute) * 60 + time.second

def secondsPerDay : Nat := 86400

theorem toSeconds_lt (time : TimeOfDay) : time.toSeconds < secondsPerDay := by
  obtain ⟨hhour, hminute, hsecond⟩ := time.isTimeOfDay
  unfold toSeconds secondsPerDay
  omega

/-- The next second of the same day. -/
def next? (time : TimeOfDay) : Option TimeOfDay :=
  of? time.hour time.minute (time.second + 1)
    <|> of? time.hour (time.minute + 1) 0
    <|> of? (time.hour + 1) 0 0

theorem toSeconds_of_next?_eq_some {time next : TimeOfDay} (h : time.next? = some next) :
    next.toSeconds = time.toSeconds + 1 := by
  have htime := time.isTimeOfDay
  simp only [next?, Option.orElse_eq_orElse, Option.orElse_eq_or, Option.or_eq_some_iff,
    of?_eq_some_iff, of?_eq_none_iff] at h
  unfold IsTimeOfDay at h htime
  unfold toSeconds
  omega

/-- Only the last second of the day has no next one. -/
theorem next?_eq_none_iff {time : TimeOfDay} :
    time.next? = none ↔ time.toSeconds + 1 = secondsPerDay := by
  have htime := time.isTimeOfDay
  simp only [next?, Option.orElse_eq_orElse, Option.orElse_eq_or, Option.or_eq_none_iff,
    of?_eq_none_iff]
  unfold IsTimeOfDay at *
  unfold toSeconds secondsPerDay
  omega

end TimeOfDay

end Cron.Calendar
