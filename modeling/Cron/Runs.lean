/-
  Cron/Runs.lean
  ==============
  **The runs of a schedule, one after the other.**

  Runs are asked for one at a time, and each is searched for from the one before.
  A search that fails ends the sequence for good, whether the calendar has ended or
  the ceiling has been reached.
-/
import Cron.Planner

namespace Cron

open Cron.Calendar

/-- The runs that are still to come after a cursor.  Without a cursor there are none
    left. -/
structure Runs where
  planner : Planner
  cursor? : Option Instant
deriving DecidableEq

namespace Runs

def after (planner : Planner) (start : Instant) : Runs := ⟨planner, some start⟩

/-- The next run, and the runs after it. -/
def next (runs : Runs) : Option Moment × Runs :=
  let run? := runs.cursor?.bind fun cursor => (runs.planner.nextRun cursor).toOption
  (run?, { runs with cursor? := run?.map Instant.ofMoment })

/-- The answers to the next `count` requests for a run. -/
def take (runs : Runs) : (count : Nat) → List (Option Moment)
  | 0 => []
  | count + 1 => runs.next.1 :: runs.next.2.take count

/-- Without a cursor there are no runs left, and no cursor comes back. -/
theorem next_of_cursor?_eq_none {runs : Runs} (h : runs.cursor? = none) :
    runs.next = (none, runs) := by
  obtain ⟨planner, cursor?⟩ := runs
  cases h
  rfl

end Runs

end Cron
