/-
  Cron/Calendar/Instant.lean
  ==========================
  **Instants: moments with a fraction of a second.**

  An instant adds nanoseconds to a moment.  The nanoseconds from 1,000,000,000 on are
  those of a leap second, which every clock face still shows as the second that it
  prolongs.  Written out, the leap second after second 59 is second 60.  Any second
  can be given the nanoseconds of a leap second, but only the last one of a minute
  can be named with them.
-/
import Cron.Calendar.Moment
import Cron.Text.Decimal

namespace Cron.Calendar

open Cron.Text

def nanosPerSecond : Nat := 1000000000

/-- Whether a number of nanoseconds can be added to a second, leap seconds included. -/
def IsFraction (nanos : Nat) : Prop := nanos < 2 * nanosPerSecond

instance (nanos : Nat) : Decidable (IsFraction nanos) := inferInstanceAs (Decidable (_ < _))

/-- A moment and the nanoseconds since it began. -/
structure Instant where
  moment : Moment
  nanos : Nat
  isFraction : IsFraction nanos
deriving DecidableEq, Repr

namespace Instant

def ofMoment (moment : Moment) : Instant := ⟨moment, 0, by decide⟩

/-- A moment and nanoseconds after it, when a second can have so many. -/
def of? (moment : Moment) (nanos : Nat) : Option Instant :=
  if h : IsFraction nanos then some ⟨moment, nanos, h⟩ else none

/-- The instant that a date, a time of day and nanoseconds name, when they name one.
    A leap second is named as the end of a minute only. -/
def ofParts? (year : Int) (month day hour minute second nanos : Nat) : Option Instant := do
  let date ← Date.of? year month day
  let time ← TimeOfDay.of? hour minute second
  if nanos < nanosPerSecond ∨ second = 59 then of? ⟨date, time⟩ nanos else none

/-! ### Dropping the fraction -/

/-- The instant with other nanoseconds after the same moment, when a second can have so
    many. -/
def withNanos? (instant : Instant) (nanos : Nat) : Option Instant := of? instant.moment nanos

/-- The instant without its nanoseconds, or as it is if it could not be without them. -/
def truncate (instant : Instant) : Instant := (instant.withNanos? 0).getD instant

/-- Every second can be without nanoseconds. -/
theorem withNanos?_zero (instant : Instant) :
    instant.withNanos? 0 = some (ofMoment instant.moment) := rfl

@[simp] theorem truncate_eq (instant : Instant) : instant.truncate = ofMoment instant.moment := by
  rw [truncate, withNanos?_zero, Option.getD_some]

@[simp] theorem moment_ofMoment (moment : Moment) : (ofMoment moment).moment = moment := rfl

/-! ### Writing instants -/

/-- A year: four digits for the years 0 to 9999, and with a sign before at least
    four digits for all others. -/
def yearText (year : Int) : List Char :=
  let digits := paddedNumeral 4 year.natAbs
  if year < 0 then '-' :: digits
  else if 9999 < year then '+' :: digits
  else digits

/-- A fraction of a second: nothing when there is none, else a point and as many
    groups of three digits as it takes. -/
def fractionText (nanos : Nat) : List Char :=
  if nanos = 0 then []
  else if nanos % 1000000 = 0 then '.' :: paddedNumeral 3 (nanos / 1000000)
  else if nanos % 1000 = 0 then '.' :: paddedNumeral 6 (nanos / 1000)
  else '.' :: paddedNumeral 9 nanos

def toText (instant : Instant) : List Char :=
  let date := instant.moment.date
  let time := instant.moment.time
  let leap := instant.nanos / nanosPerSecond
  yearText date.year ++ '-' :: paddedNumeral 2 date.month ++ '-' :: paddedNumeral 2 date.day ++
    ' ' :: paddedNumeral 2 time.hour ++ ':' :: paddedNumeral 2 time.minute ++
    ':' :: paddedNumeral 2 (time.second + leap) ++ fractionText (instant.nanos % nanosPerSecond)

instance : ToString Instant := ⟨fun instant => String.ofList instant.toText⟩

instance : ToString Moment := ⟨fun moment => toString (ofMoment moment)⟩

end Instant

end Cron.Calendar
