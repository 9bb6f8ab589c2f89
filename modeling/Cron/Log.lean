/-
  Cron/Log.lean
  =============
  **What reading and searching write to the log.**

  A parsed expression is logged with its text.  A search logs every carry as it
  takes it and at last what came of it, with one exception: when the calendar has
  no second left to try, nothing is logged.
-/
import Cron.Expression

namespace Cron

open Cron.Calendar

inductive Level where
  | trace
  | debug
  | warn
deriving DecidableEq, Repr

inductive Event where
  | parsed (text : String)
  | carried (carry : Carry)
  | resolved (start next : Moment) (tested : Nat)
  | neverOccurs (start : Moment)
  | notFound (start : Moment) (tested : Nat)
deriving DecidableEq, Repr

def Level.label : Level → String
  | .trace => "TRACE"
  | .debug => "DEBUG"
  | .warn => "WARN"

/-- The unit that a carry moves. -/
def Carry.unit : Carry → String
  | .second _ => "second"
  | .minute _ => "minute"
  | .hour _ => "hour"
  | .day _ => "day"
  | .month _ _ => "month"
  | .year _ _ _ => "year"

namespace Event

def level : Event → Level
  | .parsed _ | .resolved _ _ _ => .debug
  | .carried _ => .trace
  | .neverOccurs _ | .notFound _ _ => .warn

def message : Event → String
  | .parsed _ => "Parsed cron expression"
  | .carried carry => s!"Carry into {carry.unit}"
  | .resolved _ _ _ => "Resolved next run"
  | .neverOccurs _ => "Schedule day/month combination never occurs"
  | .notFound _ _ => "No next run found"

end Event

/-! ### The log of a search -/

def Walk.lastEvent (walk : Walk) (start : Moment) : Event :=
  match walk.found? with
  | some next => .resolved start next walk.tested
  | none => .notFound start walk.tested

/-- The events of a search that started after a moment. -/
def Outcome.events (start : Moment) : Outcome → List Event
  | .neverOccurs => [.neverOccurs start]
  | .calendarEnds => []
  | .searched walk => walk.carries.map Event.carried ++ [walk.lastEvent start]

/-- Reads an expression, sets up a planner and looks for the first run after an
    instant: the events up to the result, and the result. -/
def tracedRun (text : String) (settings : Settings) (start : Instant) :
    List Event × Except Failure Moment :=
  match Expression.parse text with
  | .error error => ([], .error error)
  | .ok expression =>
    let parsed := Event.parsed expression.text
    match Planner.withSettings expression.schedule settings with
    | .error error => ([parsed], .error error)
    | .ok planner =>
      let whole := start.truncate.moment
      (parsed :: (planner.search whole).events whole, planner.nextRun start)

end Cron
