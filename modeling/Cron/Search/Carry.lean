/-
  Cron/Search/Carry.lean
  ======================
  **Carries: how the search leaves a moment that it rejects.**

  A rejected moment is not followed by the next second.  The search moves one unit
  to its next permitted value and sets every finer unit to its smallest one, as an
  odometer does.  It begins with the coarsest unit that the moment violates, since
  no change of a finer one could help, and goes on to coarser units as long as the
  unit at hand has no permitted value left.  A violated weekday rejects the day.

  Months and years are entered at the smallest permitted day, and are passed over
  when they are too short for it.  A 29 February recurs within eight years, so the
  eight years ahead are enough to look at.
-/
import Cron.Schedule

namespace Cron

open Cron.Calendar

/-- A unit moved to a new value.  Entering a month or a year also names the day on
    which it is entered. -/
inductive Carry where
  | second (value : Nat)
  | minute (value : Nat)
  | hour (value : Nat)
  | day (value : Nat)
  | month (month day : Nat)
  | year (year : Int) (month day : Nat)
deriving DecidableEq, Repr

/-! ### Lengths of months -/

/-- Whether the calendar has a 29 February in a year. -/
def hasLeapDate (year : Int) : Bool := (Date.of? year 2 29).isSome

/-- The number of days that a month of a year has.  Past the ends of the calendar every
    year is a common one. -/
def monthLength (year : Int) : (month : Nat) → Nat
  | 2 => if hasLeapDate year then 29 else 28
  | 4 | 6 | 9 | 11 => 30
  | _ => 31

/-- The number of days that a month has in a leap year. -/
def longestLength (month : Nat) : Nat := monthLength 2000 month

namespace Schedule

/-! ### Finding the carry -/

/-- The longest run of years of which only the last has a 29 February. -/
def leapYearGap : Nat := 8

/-- Whether a month is long enough for the smallest permitted day. -/
def fits (schedule : Schedule) (year : Int) (month : Nat) : Bool :=
  schedule.first .day ≤ monthLength year month

/-- The carry into a given year: its first permitted month that is long enough. -/
def carryInto? (schedule : Schedule) (year : Int) : Option Carry :=
  (schedule.months.find? (schedule.fits year)).map fun month =>
    .year year month (schedule.first .day)

/-- The carry into the first of the years ahead that has a month to enter. -/
def carryYear? (schedule : Schedule) (moment : Moment) : Option Carry :=
  (List.range leapYearGap).findSome? fun n : Nat => schedule.carryInto? (moment.date.year + 1 + n)

/-- The carry into a later month of the same year, or else beyond it. -/
def carryMonth? (schedule : Schedule) (moment : Moment) : Option Carry :=
  let date := moment.date
  let later := schedule.months.find? fun month =>
    date.month < month && schedule.fits date.year month
  later.map (fun month => .month month (schedule.first .day))
    <|> schedule.carryYear? moment

/-- The carry into a later day of the same month, or else beyond it. -/
def carryDay? (schedule : Schedule) (moment : Moment) : Option Carry :=
  let date := moment.date
  let later := (schedule.next? .day date.day).filter fun day =>
    day ≤ monthLength date.year date.month
  later.map Carry.day <|> schedule.carryMonth? moment

def carryHour? (schedule : Schedule) (moment : Moment) : Option Carry :=
  (schedule.next? .hour moment.time.hour).map Carry.hour <|> schedule.carryDay? moment

def carryMinute? (schedule : Schedule) (moment : Moment) : Option Carry :=
  (schedule.next? .minute moment.time.minute).map Carry.minute <|> schedule.carryHour? moment

def carrySecond? (schedule : Schedule) (moment : Moment) : Option Carry :=
  (schedule.next? .second moment.time.second).map Carry.second <|> schedule.carryMinute? moment

/-- The carry out of a rejected moment, from the coarsest unit that it violates. -/
def carry? (schedule : Schedule) (moment : Moment) : Option Carry :=
  let reading := moment.reading
  if !schedule.contains .month reading.month then schedule.carryMonth? moment
  else if !schedule.contains .day reading.day || !schedule.contains .weekday reading.weekday then
    schedule.carryDay? moment
  else if !schedule.contains .hour reading.hour then schedule.carryHour? moment
  else if !schedule.contains .minute reading.minute then schedule.carryMinute? moment
  else schedule.carrySecond? moment

/-! ### Following it -/

def firstTime? (schedule : Schedule) : Option TimeOfDay :=
  TimeOfDay.of? (schedule.first .hour) (schedule.first .minute) (schedule.first .second)

/-- The moment that a carry leads to from another.  A carry can point past the end of
    the calendar, and then leads nowhere. -/
def follow? (schedule : Schedule) (moment : Moment) : Carry → Option Moment
  | .second value => onSameDay (TimeOfDay.of? moment.time.hour moment.time.minute value)
  | .minute value => onSameDay (TimeOfDay.of? moment.time.hour value (schedule.first .second))
  | .hour value =>
    onSameDay (TimeOfDay.of? value (schedule.first .minute) (schedule.first .second))
  | .day value => atFirstTime (Date.of? moment.date.year moment.date.month value)
  | .month month day => atFirstTime (Date.of? moment.date.year month day)
  | .year year month day => atFirstTime (Date.of? year month day)
where
  onSameDay (time? : Option TimeOfDay) : Option Moment :=
    time?.map fun time => ⟨moment.date, time⟩
  atFirstTime (date? : Option Date) : Option Moment := do
    let date ← date?
    let time ← schedule.firstTime?
    return ⟨date, time⟩

end Schedule

end Cron
