/-
  Cron/Calendar/Reading.lean
  ==========================
  **What a clock and a calendar on the wall show.**

  A reading is the six numbers that a moment shows, one for each field of a
  schedule.  The year is not among them.  The same moment reads differently under
  another offset from universal time, and the local day may then lie one day
  outside the calendar; its reading is that of the day that would come there, and
  the week goes on without a break.
-/
import Cron.Calendar.Moment
import Cron.Field

namespace Cron.Calendar

/-- The month, day and weekday that a wall calendar shows. -/
structure DayReading where
  month : Nat
  day : Nat
  weekday : Nat
deriving DecidableEq, Repr

/-- The six numbers shown at a moment. -/
structure Reading extends DayReading where
  hour : Nat
  minute : Nat
  second : Nat
deriving DecidableEq, Repr

def Reading.get (reading : Reading) : Field → Nat
  | .second => reading.second
  | .minute => reading.minute
  | .hour => reading.hour
  | .day => reading.day
  | .month => reading.month
  | .weekday => reading.weekday

/-! ### Days -/

def Date.reading (date : Date) : DayReading := ⟨date.month, date.day, date.weekday⟩

def Date.readingAfter (date : Date) : DayReading :=
  let weekday := (date.weekday + 1) % 7
  if date.day < daysIn date.year date.month then ⟨date.month, date.day + 1, weekday⟩
  else if date.month < 12 then ⟨date.month + 1, 1, weekday⟩
  else ⟨1, 1, weekday⟩

def Date.readingBefore (date : Date) : DayReading :=
  let weekday := (date.weekday + 6) % 7
  if 1 < date.day then ⟨date.month, date.day - 1, weekday⟩
  else if 1 < date.month then ⟨date.month - 1, daysIn date.year (date.month - 1), weekday⟩
  else ⟨12, 31, weekday⟩

/-! ### Moments -/

def Moment.reading (moment : Moment) : Reading :=
  { moment.date.reading with
    hour := moment.time.hour, minute := moment.time.minute, second := moment.time.second }

/-- The reading of a day at some second of it. -/
def DayReading.atSecond (day : DayReading) (seconds : Nat) : Reading :=
  { day with
    hour := seconds / 3600, minute := seconds / 60 % 60, second := seconds % 60 }

/-- The reading of a moment of universal time where clocks are `offset` seconds ahead
    of it.  An offset is shorter than a day either way. -/
def Moment.readingAt (moment : Moment) (offset : Int) : Reading :=
  let seconds := moment.time.toSeconds + offset
  if seconds < 0 then
    moment.date.readingBefore.atSecond (seconds + TimeOfDay.secondsPerDay).toNat
  else if seconds < TimeOfDay.secondsPerDay then
    moment.date.reading.atSecond seconds.toNat
  else
    moment.date.readingAfter.atSecond (seconds - TimeOfDay.secondsPerDay).toNat

/-- At universal time itself a moment reads as it is. -/
theorem Moment.readingAt_zero (moment : Moment) : moment.readingAt 0 = moment.reading := by
  have hlt := moment.time.toSeconds_lt
  obtain ⟨hhour, hminute, hsecond⟩ := moment.time.isTimeOfDay
  have hnonneg : ¬ ((moment.time.toSeconds : Int) < 0) := by omega
  have hday : (moment.time.toSeconds : Int) < TimeOfDay.secondsPerDay := by omega
  simp only [readingAt, Int.add_zero]
  rw [if_neg hnonneg, if_pos hday]
  simp only [Int.toNat_natCast, DayReading.atSecond, reading, TimeOfDay.toSeconds,
    Reading.mk.injEq, true_and]
  omega

end Cron.Calendar
