/-
  Cron/Calendar/Moment.lean
  =========================
  **Moments: the whole seconds of the calendar.**

  A moment is a second of some day.  Counting seconds from a fixed day on puts all
  moments on one line, and that count is what earlier and later mean.
-/
import Cron.Calendar.Date
import Cron.Calendar.TimeOfDay

namespace Cron.Calendar

/-- A second of a day of the calendar. -/
structure Moment where
  date : Date
  time : TimeOfDay
deriving DecidableEq, Repr

namespace Moment

/-- The place of a moment on the line of all seconds. -/
def toSeconds (moment : Moment) : Int :=
  moment.date.dayNumber * TimeOfDay.secondsPerDay + moment.time.toSeconds

instance : LT Moment := ⟨fun left right => left.toSeconds < right.toSeconds⟩

instance : LE Moment := ⟨fun left right => left.toSeconds ≤ right.toSeconds⟩

instance (left right : Moment) : Decidable (left < right) :=
  inferInstanceAs (Decidable (left.toSeconds < right.toSeconds))

instance (left right : Moment) : Decidable (left ≤ right) :=
  inferInstanceAs (Decidable (left.toSeconds ≤ right.toSeconds))

/-- The moment one second later, unless the calendar ends before it. -/
def next? (moment : Moment) : Option Moment :=
  match moment.time.next? with
  | some time => some ⟨moment.date, time⟩
  | none => moment.date.next?.map fun date => ⟨date, TimeOfDay.midnight⟩

/-- The next moment is one second later, across midnight as within a day. -/
theorem toSeconds_of_next?_eq_some {moment next : Moment} (h : moment.next? = some next) :
    next.toSeconds = moment.toSeconds + 1 := by
  unfold next? at h
  split at h
  case h_1 htime =>
    cases h
    have hseconds := TimeOfDay.toSeconds_of_next?_eq_some htime
    simp only [toSeconds, hseconds]
    omega
  case h_2 htime =>
    obtain ⟨date, hdate, rfl⟩ := Option.map_eq_some_iff.mp h
    have hlast := TimeOfDay.next?_eq_none_iff.mp htime
    have hday := Date.dayNumber_of_next?_eq_some hdate
    have hfirst : TimeOfDay.midnight.toSeconds = 0 := rfl
    simp only [toSeconds, hday, hfirst]
    rw [Int.add_mul, Int.one_mul, ← hlast]
    omega

end Moment

end Cron.Calendar
