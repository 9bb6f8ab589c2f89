/-
  Cron/Schedule.lean
  ==================
  **Schedules: six sets of permitted values.**

  A schedule permits a set of values in every field, kept as ascending lists.  It
  knows nothing of dates: what it judges is a reading, and it permits a reading
  whose six numbers it permits.
-/
import Cron.Calendar.Reading
import Cron.Expansion
import Cron.FieldTexts

namespace Cron

open Cron.Calendar

/-- The permitted values of each field, ascending. -/
structure Schedule where
  seconds : List Nat
  minutes : List Nat
  hours : List Nat
  days : List Nat
  months : List Nat
  weekdays : List Nat
deriving DecidableEq, Repr

namespace Schedule

/-- The schedule that six texts denote; the first field that denotes none is at
    fault. -/
def ofTexts (texts : FieldTexts) : Except ExpansionError Schedule := do
  let seconds ← Field.expand .second texts.second
  let minutes ← Field.expand .minute texts.minute
  let hours ← Field.expand .hour texts.hour
  let days ← Field.expand .day texts.day
  let months ← Field.expand .month texts.month
  let weekdays ← Field.expand .weekday texts.weekday
  return ⟨seconds, minutes, hours, days, months, weekdays⟩

/-- The permitted values of a field, ascending. -/
def values (schedule : Schedule) : Field → List Nat
  | .second => schedule.seconds
  | .minute => schedule.minutes
  | .hour => schedule.hours
  | .day => schedule.days
  | .month => schedule.months
  | .weekday => schedule.weekdays

def contains (schedule : Schedule) (field : Field) (value : Nat) : Bool :=
  (schedule.values field).contains value

/-- The smallest permitted value, or the smallest value of the field when none is
    permitted. -/
def first (schedule : Schedule) (field : Field) : Nat :=
  (schedule.values field).headD field.bounds.min

/-- The smallest permitted value above another. -/
def next? (schedule : Schedule) (field : Field) (value : Nat) : Option Nat :=
  (schedule.values field).find? fun candidate => value < candidate

def permits (schedule : Schedule) (reading : Reading) : Bool :=
  Field.all.all fun field => schedule.contains field (reading.get field)

theorem permits_iff {schedule : Schedule} {reading : Reading} :
    schedule.permits reading = true ↔
      ∀ field, schedule.contains field (reading.get field) = true := by
  simp only [permits, List.all_eq_true]
  exact ⟨fun h field => h field (Field.mem_all field), fun h field _ => h field⟩

end Schedule

end Cron
