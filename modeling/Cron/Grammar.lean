/-
  Cron/Grammar.lean
  =================
  **The grammar of expressions, as a check that reports the first fault.**

      field  ::=  item , item , …
      item   ::=  base  |  base / step
      base   ::=  *  |  value  |  value - value
      value  ::=  name of the field  |  numeral within the bounds

  The check looks at a field as a whole before it looks at its items: an illegal
  character anywhere is reported first, then a comma out of place, then the
  leftmost faulty item.  Within an item the step is judged before the base, and
  within a range the start before the end.
-/
import Cron.FieldTexts
import Cron.Text.Cut

namespace Cron

open Cron.Text

namespace Field

/-! ### Values and ranges -/

/-- The value of a token that is a name or a numeral within the bounds.  A numeral that
    is too large for a literal has no value, and is out of range like any other that is
    not within the bounds. -/
def checkValue (field : Field) (token : List Char) : Except FieldFault Nat :=
  match field.valueOfName? token with
  | some value => .ok value
  | none =>
    if !isDigits token then .error (.unknownName (String.ofList token))
    else match (field.value? token).filter field.bounds.contains with
      | some value => .ok value
      | none => .error (.outOfRange (String.ofList token) field.bounds)

/-- Accepts a star, a value, or two values in order around one hyphen. -/
def checkBase (field : Field) (base : List Char) : Except FieldFault Unit :=
  if base = ['*'] then .ok ()
  else match base.splitOn '-' with
    | [_] => (field.checkValue base).map fun _ => ()
    | [start, stop] =>
      if start.isEmpty || stop.isEmpty then .error (.malformedRange (String.ofList base))
      else do
        let first ← field.checkValue start
        let last ← field.checkValue stop
        if last < first then .error (.invertedRange (String.ofList base) first last)
        else .ok ()
    | _ => .error (.malformedRange (String.ofList base))

/-! ### Items and fields -/

/-- Accepts a base, alone or with a slash and a positive literal after it. -/
def checkItem (field : Field) (item : List Char) : Except FieldFault Unit :=
  match cutAt? '/' item with
  | none => field.checkBase item
  | some (base, step) =>
    match base.isEmpty, literal? step with
    | false, some (_ + 1) => field.checkBase base
    | false, some 0 => .error (.nonPositiveStep (String.ofList item))
    | _, _ => .error (.malformedStep (String.ofList item))

/-- Whether a character can occur in a field at all. -/
def admitsChar (c : Char) : Bool := c.isAlphanum || "*/,-".toList.contains c

/-- Accepts an item of a list, which must not be empty. -/
def checkListed (field : Field) (item : List Char) : Except FieldFault Unit :=
  if item.isEmpty then .error .empty else field.checkItem item

/-- Accepts a list of one or more items.  No comma may lead, trail or follow another. -/
def check (field : Field) (text : List Char) : Except FieldFault Unit :=
  if text.isEmpty then .error .empty
  else match text.find? fun c => !admitsChar c with
    | some c => .error (.illegalCharacter (String.ofList text) c)
    | none =>
      if hasStray ',' text then .error (.malformedList (String.ofList text))
      else (text.splitOn ',').forM field.checkListed

end Field

/-! ### Expressions -/

def FieldTexts.check (texts : FieldTexts) : Except GrammarError Unit :=
  Field.all.forM fun field => (field.check (texts.get field)).mapError (.inField field)

/-- Accepts the expressions of the grammar, and names the first fault of any other. -/
def checkExpression (expression : String) : Except GrammarError Unit := do
  let texts ← FieldTexts.ofExpression expression
  texts.check

def isWellFormed (expression : String) : Bool := (checkExpression expression).isOk

end Cron
