/-
  Cron/Fault.lean
  ===============
  **Everything that can go wrong.**

  Two readers look at a field's text.  The grammar check says in which way the
  text is malformed; the expansion says why it denotes no set of values.  Both
  name the piece of text at fault.  An expression as a whole can also be empty or
  have the wrong number of fields.

  Beyond the text of an expression, a search can end without a run, settings can be
  unusable, and a document can be unreadable.
-/
import Cron.Calendar.Instant
import Cron.Field
import Cron.Json.Reader

namespace Cron

open Cron.Calendar

/-! ### Faults against the grammar -/

/-- The ways in which one field's text breaks the grammar. -/
inductive FieldFault where
  /-- The text is empty. -/
  | empty
  /-- The text holds a character that no field uses. -/
  | illegalCharacter (token : String) (character : Char)
  /-- A comma leads, trails or is doubled. -/
  | malformedList (token : String)
  /-- The step is no literal, or nothing stands before it. -/
  | malformedStep (token : String)
  | nonPositiveStep (token : String)
  /-- A hyphen does not stand between exactly two endpoints. -/
  | malformedRange (token : String)
  | invertedRange (token : String) (start stop : Nat)
  /-- A value is neither a name of the field nor a numeral. -/
  | unknownName (token : String)
  | outOfRange (token : String) (bounds : Bounds)
deriving DecidableEq, Repr

def FieldFault.message (field : Field) : FieldFault → String
  | .empty => s!"Field '{field}' cannot be empty"
  | .illegalCharacter token character =>
    s!"Field '{field}' contains invalid character '{character}' in '{token}'"
  | .malformedList token => s!"Field '{field}' has malformed comma usage: '{token}'"
  | .malformedStep token => s!"Invalid step syntax '{token}' in field '{field}'"
  | .nonPositiveStep token => s!"Step must be positive in '{token}' for field '{field}'"
  | .malformedRange token => s!"Invalid range syntax '{token}' in field '{field}'"
  | .invertedRange token start stop =>
    s!"Inverted range '{token}' in field '{field}': {start} > {stop}"
  | .unknownName token => s!"Unknown value '{token}' in field '{field}'"
  | .outOfRange token bounds =>
    s!"Value '{token}' is out of range {bounds} for field '{field}'"

/-- Why an expression is rejected by the grammar. -/
inductive GrammarError where
  /-- There is no word at all. -/
  | emptyExpression
  /-- There are words, but not six. -/
  | fieldCount (found : Nat)
  | inField (field : Field) (fault : FieldFault)
deriving DecidableEq, Repr

/-- The field that is at fault, when a single one is. -/
def GrammarError.field? : GrammarError → Option Field
  | .emptyExpression | .fieldCount _ => none
  | .inField field _ => some field

def GrammarError.message : GrammarError → String
  | .emptyExpression => "Expression cannot be empty"
  | .fieldCount found => s!"Cron expression must have 6 fields, got {found}"
  | .inField field fault => fault.message field

/-! ### Faults of expansion -/

/-- The ways in which one field's text fails to denote a set of values. -/
inductive ExpansionFault where
  /-- An item is empty. -/
  | empty
  | outOfRange (value : Nat) (bounds : Bounds)
  /-- A value is neither a name of the field nor a literal. -/
  | unknownName (token : String)
  | invertedRange (start stop : Nat)
  /-- The step is no positive literal. -/
  | invalidStep (token : String)
deriving DecidableEq, Repr

structure ExpansionError where
  field : Field
  fault : ExpansionFault
deriving DecidableEq, Repr

def ExpansionError.message (error : ExpansionError) : String :=
  let field := error.field
  match error.fault with
  | .empty => s!"Field '{field}' produced no values"
  | .outOfRange value bounds => s!"Value {value} is out of range {bounds} for field '{field}'"
  | .unknownName token => s!"Unknown value '{token}' in field '{field}'"
  | .invertedRange start stop => s!"Inverted range {start}-{stop} in field '{field}'"
  | .invalidStep token => s!"Invalid step '{token}' in field '{field}'"

/-! ### Failures -/

/-- The failures of reading, searching and configuring. -/
inductive Failure where
  | grammar (cause : GrammarError)
  /-- A field denotes no set of values. -/
  | expansion (cause : ExpansionError)
  /-- No run was found among the candidates tested after an instant. -/
  | noNextRun (start : Instant) (tested : Nat)
  | settings (reason : String)
  | unreadable (fault : Json.Fault)
deriving DecidableEq, Repr

def Failure.message : Failure → String
  | .grammar cause => s!"Syntax error: {cause.message}"
  | .expansion cause => s!"Expansion error: {cause.message}"
  | .noNextRun start tested => s!"No next run found after {start} within {tested} iterations"
  | .settings reason => s!"Configuration error: {reason}"
  | .unreadable fault => s!"Serialization error: {fault.category}"

end Cron
