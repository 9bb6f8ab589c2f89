/-
  Cron/Document.lean
  ==================
  **Expressions, settings, bounds and fields as JSON documents.**

  An expression is written as the string of its text and read by parsing that text
  again, so no document can hold an expression that its text does not denote.
  Settings and bounds are records of numbers, and a field is its label.
-/
import Cron.Expression
import Cron.Json.Record

namespace Cron

open Cron.Json
open Cron.Text

/-! ### Settings -/

def Settings.ceilingName : String := "max_iterations"

/-- The settings of a document.  A ceiling that is missing is the default one. -/
def Settings.ofJson (text : String) : Except Failure Settings := do
  let settings ← (readDocument (readRecord [ceilingName] UInt64.size settings?) text).mapError
    .unreadable
  settings.check
where
  settings? : List (Option Nat) → Option Settings
    | [some ceiling] => some ⟨UInt64.ofNat ceiling⟩
    | _ => some {}

def Settings.toJson (settings : Settings) : String :=
  String.ofList (recordText [(ceilingName, numeral settings.ceiling.toNat)])

/-! ### Bounds and fields -/

/-- The bounds of a document, which needs both of them. -/
def Bounds.ofJson (text : String) : Except Fault Bounds :=
  readDocument (readRecord ["min", "max"] literalLimit bounds?) text
where
  bounds? : List (Option Nat) → Option Bounds
    | [some min, some max] => some ⟨min, max⟩
    | _ => none

def Bounds.toJson (bounds : Bounds) : String :=
  String.ofList (recordText [("min", numeral bounds.min), ("max", numeral bounds.max)])

def Field.ofJson (text : String) : Except Fault Field :=
  readDocument (readChoice Field.ofLabel?) text

def Field.toJson (field : Field) : String := String.ofList (quote field.label.toList)

/-! ### Schedules and expressions -/

/-- The document of a schedule.  Schedules are not read back. -/
def Schedule.toJson (schedule : Schedule) : String :=
  let values (field : Field) := listText ((schedule.values field).map numeral)
  String.ofList (recordText (Field.all.map fun field => (field.label ++ "s", values field)))

/-- Why a document holds no expression. -/
inductive Expression.DocumentError where
  | unreadable (fault : Fault)
  | rejected (cause : Failure)
deriving DecidableEq, Repr

/-- The kind of fault.  A string that denotes no expression is JSON, but not of what was
    asked for. -/
def Expression.DocumentError.fault : Expression.DocumentError → Fault
  | .unreadable fault => fault
  | .rejected _ => .mismatch

/-- What is said about a string that denotes no expression. -/
def Expression.DocumentError.message? : Expression.DocumentError → Option String
  | .unreadable _ => none
  | .rejected cause => some cause.message

/-- The expression of a document.  A string that denotes none is reported before
    anything that follows it. -/
def Expression.ofJson (text : String) : Except Expression.DocumentError Expression := do
  let (source, rest) ← (readString text.toList).mapError .unreadable
  let expression ← (Expression.parse (String.ofList source)).mapError .rejected
  if (skipBlanks rest).isEmpty then .ok expression else .error (.unreadable .malformed)

def Expression.toJson (expression : Expression) : String :=
  String.ofList (quote expression.text.toList)

end Cron
