/-
  Cron/Planner.lean
  =================
  **Next runs of one schedule under fixed settings.**

  The one setting is the ceiling on tested candidates.  It is a 64-bit word, and by
  default the number of seconds in four common years.  Settings may hold a ceiling
  of zero, but nothing is ever searched under it: a planner pairs a schedule with
  settings that have been checked, so every search it makes tests at least one
  candidate unless there is none.
-/
import Cron.Fault
import Cron.Search.Outcome

namespace Cron

open Cron.Calendar

/-! ### Settings -/

/-- The ceiling on tested candidates that holds by default. -/
def defaultCeiling : UInt64 := 4 * 365 * 24 * 60 * 60

/-- How far a search may go. -/
structure Settings where
  /-- The number of candidates that are tested before a search gives up. -/
  ceiling : UInt64 := defaultCeiling
deriving DecidableEq, Repr

/-- The failure of settings under which nothing could be tested. -/
def Settings.zeroCeiling : Failure := .settings "max_iterations must be greater than 0"

/-- Lets settings pass that have a positive ceiling. -/
def Settings.check (settings : Settings) : Except Failure Settings :=
  if settings.ceiling = 0 then .error zeroCeiling else .ok settings

/-! ### Planners -/

/-- A schedule and a positive ceiling for the searches on it. -/
structure Planner where
  schedule : Schedule
  settings : Settings
  positive : settings.ceiling ≠ 0
deriving DecidableEq

namespace Planner

/-- The planner of a schedule under the default settings. -/
def ofSchedule (schedule : Schedule) : Planner := ⟨schedule, {}, by decide⟩

/-- The planner of a schedule under given settings, when these are usable. -/
def withSettings (schedule : Schedule) (settings : Settings) : Except Failure Planner :=
  if h : settings.ceiling = 0 then .error Settings.zeroCeiling
  else .ok ⟨schedule, settings, h⟩

/-- The search for the first run after a moment. -/
def search (planner : Planner) (start : Moment) : Outcome :=
  planner.schedule.search planner.settings.ceiling.toNat start

/-- The first run after an instant.  A search starts from whole seconds: the fraction
    is dropped, and a leap second counts as the second it prolongs. -/
def nextRun (planner : Planner) (start : Instant) : Except Failure Moment :=
  let whole := start.truncate
  let outcome := planner.search whole.moment
  match outcome.next? with
  | some next => .ok next
  | none => .error (.noNextRun whole outcome.tested)

end Planner

end Cron
