/-
  Cron/Json/Reader.lean
  =====================
  **Readers of JSON text.**

  A reader takes what it needs from the front of a text and hands on the rest.  Every
  reader here takes something whenever it succeeds, which is what lets lists and
  records of any length be read by recursion on the length of the text.  A text is
  read from left to right, and the first thing wrong with it decides.
-/
import Cron.Success

namespace Cron.Json

/-! ### Faults -/

/-- The kinds of fault that stop the reading of a document. -/
inductive Fault where
  /-- The text ends before the document does. -/
  | ended
  /-- The text is not JSON. -/
  | malformed
  /-- The text is JSON, but not of what was asked for. -/
  | mismatch
deriving DecidableEq, Repr

/-- The name of a kind of fault. -/
def Fault.category : Fault → String
  | .ended => "eof"
  | .malformed => "syntax"
  | .mismatch => "data"

/-! ### Readers -/

/-- Takes a value from the front of a text, or says why it cannot. -/
abbrev Reader (α : Type) := List Char → Except Fault (α × List Char)

/-- Whether a reader takes at least one character whenever it succeeds. -/
def Reader.Takes {α : Type} (reader : Reader α) : Prop :=
  ∀ {s value rest}, reader s = .ok (value, rest) → rest.length < s.length

/-- Whether JSON ignores a character between its tokens. -/
def isBlank (c : Char) : Bool := c == ' ' || c == '\n' || c == '\t' || c == '\r'

def skipBlanks (s : List Char) : List Char := s.dropWhile isBlank

theorem length_skipBlanks_le (s : List Char) : (skipBlanks s).length ≤ s.length :=
  (List.dropWhile_sublist isBlank).length_le

theorem length_lt_of_skipBlanks_eq {s rest : List Char} {c : Char}
    (h : skipBlanks s = c :: rest) : rest.length < s.length := by
  have hle := length_skipBlanks_le s
  rw [h, List.length_cons] at hle
  exact hle

/-- Takes one given character, which blanks may precede. -/
def readMark (mark : Char) : Reader Unit := fun s =>
  match skipBlanks s with
  | [] => .error .ended
  | c :: rest => if c = mark then .ok ((), rest) else .error .malformed

theorem takes_readMark (mark : Char) : (readMark mark).Takes := by
  intro s value rest h
  unfold readMark at h
  split at h
  case h_1 => cases h
  case h_2 hskip =>
    split at h
    case isTrue => cases h; exact length_lt_of_skipBlanks_eq hskip
    case isFalse => cases h

def readWord : (word : List Char) → Reader Unit
  | [], s => .ok ((), s)
  | _ :: _, [] => .error .ended
  | expected :: word, c :: rest => if c = expected then readWord word rest else .error .malformed

theorem length_readWord_le {word s rest : List Char} (h : readWord word s = .ok ((), rest)) :
    rest.length ≤ s.length := by
  induction word generalizing s with
  | nil => cases h; exact Nat.le_refl _
  | cons expected word ih =>
    cases s with
    | nil => cases h
    | cons c s =>
      unfold readWord at h
      split at h
      case isTrue => exact Nat.le_succ_of_le (ih h)
      case isFalse => cases h

end Cron.Json
