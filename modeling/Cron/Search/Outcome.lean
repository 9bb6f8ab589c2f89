/-
  Cron/Search/Outcome.lean
  ========================
  **Searching for the next run, and what comes of it.**

  A search starts at the second after a moment.  It does not start at all when no
  permitted month is ever long enough for the smallest permitted day, nor when the
  calendar has no second left.
-/
import Cron.Search.Walk

namespace Cron

open Cron.Calendar

/-- What came of a search. -/
inductive Outcome where
  /-- No permitted month ever has a permitted day. -/
  | neverOccurs
  /-- The calendar ends with the moment that the search was to start after. -/
  | calendarEnds
  | searched (walk : Walk)
deriving DecidableEq, Repr

def Outcome.next? : Outcome → Option Moment
  | .neverOccurs | .calendarEnds => none
  | .searched walk => walk.found?

def Outcome.tested : Outcome → Nat
  | .neverOccurs | .calendarEnds => 0
  | .searched walk => walk.tested

namespace Schedule

/-- Whether some permitted month is in some year long enough for the smallest
    permitted day. -/
def canOccur (schedule : Schedule) : Bool :=
  schedule.months.any fun month => schedule.first .day ≤ longestLength month

/-- The search for the first permitted moment after another, testing `ceiling`
    candidates at most. -/
def search (schedule : Schedule) (ceiling : Nat) (start : Moment) : Outcome :=
  if schedule.canOccur then
    match start.next? with
    | none => .calendarEnds
    | some candidate => .searched (schedule.walk ceiling candidate)
  else .neverOccurs

end Schedule

end Cron
