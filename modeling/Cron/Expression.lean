/-
  Cron/Expression.lean
  ====================
  **Expressions: a schedule together with the text it was read from.**

  An expression keeps its text without the blanks around it and otherwise as it was
  written.  The schedule is never stored apart from the text that it was read from.
-/
import Cron.Grammar
import Cron.Planner

namespace Cron

open Cron.Calendar
open Cron.Text

/-- The schedule of a text: the grammar is checked first, for all fields, and then the
    fields are expanded. -/
def Schedule.parse (text : String) : Except Failure Schedule := do
  (checkExpression text).mapError .grammar
  let texts := FieldTexts.atPlaces (words text.toList)
  (Schedule.ofTexts texts).mapError .expansion

structure Expression where
  text : String
  schedule : Schedule
deriving DecidableEq, Repr

namespace Expression

def parse (text : String) : Except Failure Expression :=
  (Schedule.parse text).map fun schedule => ⟨String.ofList (trim text.toList), schedule⟩

instance : ToString Expression := ⟨Expression.text⟩

def permits (expression : Expression) (moment : Moment) : Bool :=
  expression.schedule.permits moment.reading

/-- The first run after an instant, under the default settings. -/
def nextRun (expression : Expression) (start : Instant) : Except Failure Moment :=
  (Planner.ofSchedule expression.schedule).nextRun start

end Expression

end Cron
