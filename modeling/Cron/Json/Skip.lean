/-
  Cron/Json/Skip.lean
  ===================
  **Values that are passed over, and values of the wrong kind.**

  A member that a record does not know is passed over: its value has to be JSON, of
  any kind and depth, and is otherwise ignored.  A value of the wrong kind ends the
  reading.  It is a mismatch; but when it is a single token, a fault inside the
  token comes first, and brackets are not looked into.
-/
import Cron.Json.Numeral
import Cron.Json.Quoted

namespace Cron.Json

/-! ### Single tokens -/

/-- Takes a literal, a number or a string.  A token that is read closely has to have a
    value: its units pair up, a double can hold it, and if it is a number that the end
    of the text cuts short, it has ended rather than that it is malformed. -/
def readToken (closely : Bool) : Reader Unit
  | [] => .error .ended
  | 'n' :: rest => readWord "ull".toList rest
  | 't' :: rest => readWord "rue".toList rest
  | 'f' :: rest => readWord "alse".toList rest
  | '"' :: rest => (readQuoted closely rest).map fun (_, rest) => ((), rest)
  | c :: rest => do
    if c = '-' || c.isDigit then
      let (numeral, rest) ← readNumeral (if closely then .ended else .malformed) (c :: rest)
      if closely && numeral.isTooLarge then .error .malformed else .ok ((), rest)
    else .error .malformed

theorem takes_readToken (closely : Bool) : (readToken closely).Takes := by
  intro s value rest h
  unfold readToken at h
  split at h
  case h_1 => cases h
  case h_5 after =>
    obtain ⟨result, hquoted, h⟩ := map_eq_ok_iff.mp h
    cases h
    exact Nat.lt_succ_of_lt (takes_readQuoted closely hquoted)
  case h_6 =>
    split at h
    case isFalse => cases h
    case isTrue =>
      obtain ⟨⟨numeral, after⟩, hnumeral, h⟩ := bind_eq_ok_iff.mp h
      dsimp only at h
      split at h
      case isTrue => cases h
      case isFalse => cases h; exact takes_readNumeral _ hnumeral
  all_goals exact Nat.lt_succ_of_le (length_readWord_le h)

/-- The fault of a value that is not of the kind asked for. -/
def mismatchOf (s : List Char) : Fault :=
  match skipBlanks s with
  | [] => .ended
  | '[' :: _ | '\x7b' :: _ => .mismatch
  | token =>
    match readToken true token with
    | .error fault => fault
    | .ok _ => .mismatch

/-! ### Whole values -/

/-- A bracket that is open: that of a list or that of a record. -/
inductive Bracket where
  | list
  | record
deriving DecidableEq, Repr

def Bracket.openedBy? : Char → Option Bracket
  | '[' => some .list
  | '\x7b' => some .record
  | _ => none

def Bracket.closing : Bracket → Char
  | .list => ']'
  | .record => '\x7d'

/-- Takes a name between quotes, as members have it.  Names that are not looked at
    need not pair up their units. -/
def readName (paired : Bool) : Reader (List Char) := fun s => do
  let ((), rest) ← readMark '"' s
  readQuoted paired rest

/-- What is left after what precedes a value inside a bracket: the name and the colon
    of a member. -/
def Bracket.skipLead : Bracket → List Char → Except Fault (List Char)
  | .list, s => .ok s
  | .record, s => do
    let (_, rest) ← readName false s
    let ((), rest) ← readMark ':' rest
    return rest

theorem takes_readName (paired : Bool) : (readName paired).Takes := by
  intro s value rest h
  obtain ⟨mark, hmark, h⟩ := bind_eq_ok_iff.mp h
  exact Nat.lt_trans (takes_readQuoted paired h) (takes_readMark '"' hmark)

theorem Bracket.length_skipLead_le {bracket : Bracket} {s rest : List Char}
    (h : bracket.skipLead s = .ok rest) : rest.length ≤ s.length := by
  cases bracket with
  | list => cases h; exact Nat.le_refl _
  | record =>
    obtain ⟨⟨name, afterName⟩, hname, h⟩ := bind_eq_ok_iff.mp h
    obtain ⟨⟨mark, afterMark⟩, hmark, h⟩ := bind_eq_ok_iff.mp h
    cases h
    exact Nat.le_of_lt (Nat.lt_trans (takes_readMark ':' hmark) (takes_readName false hname))

/-- What is still due in a text: a value, or what ends the bracket that a value stands
    in. -/
inductive Due where
  | value
  | close (bracket : Bracket)
deriving DecidableEq, Repr

/-- Takes the next token of what is due, with the lead of a value that it calls for,
    and gives what is due in its place. -/
def readDue (due : Due) : Reader (List Due) := fun s =>
  match skipBlanks s with
  | [] => .error .ended
  | c :: rest =>
    match due with
    | .value =>
      match Bracket.openedBy? c with
      | none => (readToken false (c :: rest)).map fun (_, after) => ([], after)
      | some bracket =>
        match skipBlanks rest with
        | [] => .error .ended
        | d :: inner =>
          if d = bracket.closing then .ok ([], inner)
          else (bracket.skipLead rest).map fun after => ([.value, .close bracket], after)
    | .close bracket =>
      if c = bracket.closing then .ok ([], rest)
      else if c = ',' then
        (bracket.skipLead rest).map fun after => ([.value, .close bracket], after)
      else .error .malformed

theorem takes_readDue (due : Due) : (readDue due).Takes := by
  intro s value left h
  unfold readDue at h
  split at h
  case h_1 => cases h
  case h_2 c rest hs =>
    have hrest := length_lt_of_skipBlanks_eq hs
    have lead {bracket : Bracket}
        (h : (bracket.skipLead rest).map (fun after => ([Due.value, .close bracket], after)) =
          .ok (value, left)) : left.length < s.length := by
      obtain ⟨after, hafter, h⟩ := map_eq_ok_iff.mp h
      cases h
      exact Nat.lt_of_le_of_lt (Bracket.length_skipLead_le hafter) hrest
    split at h
    case h_1 =>
      split at h
      case h_1 =>
        obtain ⟨after, htoken, h⟩ := map_eq_ok_iff.mp h
        cases h
        exact Nat.lt_of_lt_of_le (takes_readToken false htoken) hrest
      case h_2 =>
        split at h
        case h_1 => cases h
        case h_2 hinner =>
          split at h
          case isTrue => cases h; exact Nat.lt_trans (length_lt_of_skipBlanks_eq hinner) hrest
          case isFalse => exact lead h
    case h_2 =>
      split at h
      case isTrue => cases h; exact hrest
      case isFalse =>
        split at h
        case isTrue => exact lead h
        case isFalse => cases h

/-- What is left of a text after all that is due in it. -/
def skipDues (dues : List Due) (s : List Char) : Except Fault (List Char) :=
  match dues with
  | [] => .ok s
  | due :: dues =>
    match h : readDue due s with
    | .error fault => .error fault
    | .ok (replacement, rest) =>
      have : rest.length < s.length := takes_readDue due h
      skipDues (replacement ++ dues) rest
termination_by s.length

def readAny : Reader Unit := fun s => (skipDues [.value] s).map fun rest => ((), rest)

theorem length_skipDues_le {dues : List Due} {s rest : List Char}
    (h : skipDues dues s = .ok rest) : rest.length ≤ s.length := by
  fun_induction skipDues dues s with
  | case1 => cases h; exact Nat.le_refl _
  | case2 => cases h
  | case3 _ _ _ _ _ _ hlt ih => exact Nat.le_of_lt (Nat.lt_of_le_of_lt (ih h) hlt)

theorem takes_readAny : readAny.Takes := by
  intro s value rest h
  obtain ⟨left, hleft, h⟩ := map_eq_ok_iff.mp h
  cases h
  unfold skipDues at hleft
  split at hleft
  case h_1 => cases hleft
  case h_2 hdue => exact Nat.lt_of_le_of_lt (length_skipDues_le hleft) (takes_readDue _ hdue)

end Cron.Json
