/-
  Cron/Field.lean
  ===============
  **The six fields of a schedule: their order, bounds and names.**

  An expression constrains second, minute, hour, day of the month, month and day
  of the week, in this order.  Each field takes whole numbers between two
  inclusive bounds, and months and weekdays also answer to English three-letter
  names.  Sunday is day 0 of the week.
-/
import Cron.Text.Decimal

namespace Cron

open Cron.Text

/-! ### Bounds -/

/-- An inclusive interval of values.  Nothing forbids an empty one. -/
structure Bounds where
  min : Nat
  max : Nat
deriving DecidableEq, Repr

def Bounds.contains (bounds : Bounds) (value : Nat) : Bool :=
  bounds.min ≤ value && value ≤ bounds.max

instance : ToString Bounds := ⟨fun bounds => s!"[{bounds.min}-{bounds.max}]"⟩

/-! ### Fields -/

/-- One dimension of a schedule, listed in the order of an expression. -/
inductive Field where
  | second
  | minute
  | hour
  | day
  | month
  | weekday
deriving DecidableEq, Repr

namespace Field

def all : List Field := [second, minute, hour, day, month, weekday]

theorem mem_all (field : Field) : field ∈ all := by cases field <;> decide

/-- The place of a field in an expression, counted from zero. -/
def position : Field → Nat
  | second => 0
  | minute => 1
  | hour => 2
  | day => 3
  | month => 4
  | weekday => 5

instance : Ord Field := ⟨fun left right => compare left.position right.position⟩

/-- What a field is called in messages and documents. -/
def label : Field → String
  | second => "second"
  | minute => "minute"
  | hour => "hour"
  | day => "day"
  | month => "month"
  | weekday => "weekday"

instance : ToString Field := ⟨label⟩

/-- The field with a given label, matched letter for letter. -/
def ofLabel? (text : String) : Option Field := all.find? fun field => field.label == text

def bounds : Field → Bounds
  | second | minute => ⟨0, 59⟩
  | hour => ⟨0, 23⟩
  | day => ⟨1, 31⟩
  | month => ⟨1, 12⟩
  | weekday => ⟨0, 6⟩

/-! ### Names -/

/-- The names of a field's values, in lower case; the fields of the clock and the
    day of the month have none. -/
def names : Field → List (String × Nat)
  | month =>
    [("jan", 1), ("feb", 2), ("mar", 3), ("apr", 4), ("may", 5), ("jun", 6),
     ("jul", 7), ("aug", 8), ("sep", 9), ("oct", 10), ("nov", 11), ("dec", 12)]
  | weekday =>
    [("sun", 0), ("mon", 1), ("tue", 2), ("wed", 3), ("thu", 4), ("fri", 5), ("sat", 6)]
  | _ => []

/-- The value that a token names.  Case matters only outside ASCII, where no name
    has letters. -/
def valueOfName? (field : Field) (token : List Char) : Option Nat :=
  (field.names.find? fun entry => entry.1.toList == token.map Char.toLower).map Prod.snd

/-- The value of a token, a name of the field or a literal, whether or not it lies
    within the bounds. -/
def value? (field : Field) (token : List Char) : Option Nat :=
  (field.valueOfName? token).or (literal? token)

/-- Only months and days of the week have names. -/
theorem names_eq_nil_iff {field : Field} :
    field.names = [] ↔ field ≠ .month ∧ field ≠ .weekday := by
  cases field <;> decide

theorem length_of_mem_names {field : Field} {entry : String × Nat}
    (h : entry ∈ field.names) : entry.1.length = 3 := by
  revert entry
  cases field <;> decide

/-- Names stand for values within the bounds. -/
theorem contains_of_mem_names {field : Field} {entry : String × Nat}
    (h : entry ∈ field.names) : field.bounds.contains entry.2 = true := by
  revert entry
  cases field <;> decide

end Field

end Cron
