/-
  Cron/Json/Record.lean
  =====================
  **Documents that hold records, choices and strings.**

  A record of numbers is written with its members' names, in any order and beside
  members that are not known, or as a bare list of its values in their fixed order.
  Values may be missing at the end of a list and anywhere else in a record; whether
  that is allowed is for the record to say.  No known name may come twice.

  A choice is written as its name, or as a record whose one member has that name and
  no value.
-/
import Cron.Json.Skip

namespace Cron.Json

/-! ### Strings and numbers -/

def readString : Reader (List Char) := fun s =>
  match skipBlanks s with
  | '"' :: rest => readQuoted true rest
  | _ => .error (mismatchOf s)

/-- Takes a natural number below a limit, which is at most that of a 64-bit word. -/
def readNatural (limit : Nat) : Reader Nat := fun s =>
  match readNumeral .ended (skipBlanks s) with
  | .error _ => .error (mismatchOf s)
  | .ok (numeral, rest) =>
    match numeral.natural?.filter fun value => value < limit with
    | none => .error (mismatchOf s)
    | some value => .ok (value, rest)

theorem takes_readNatural (limit : Nat) : (readNatural limit).Takes := by
  intro s value rest h
  unfold readNatural at h
  split at h
  case h_1 => cases h
  case h_2 hnumeral =>
    split at h
    case h_1 => cases h
    case h_2 =>
      cases h
      exact Nat.lt_of_lt_of_le (takes_readNumeral .ended hnumeral) (length_skipBlanks_le s)

/-! ### Records -/

/-- The names that a record knows, with the values found for them so far. -/
abbrev Members := List (String × Option Nat)

def Members.set (members : Members) (name : String) (value : Nat) : Members :=
  members.map fun member => if member.1 = name then (name, some value) else member

def skipComma (isFirst : Bool) (s : List Char) : Except Fault (List Char) :=
  if isFirst then .ok s else (readMark ',' s).map Prod.snd

theorem length_skipComma_le {isFirst : Bool} {s rest : List Char}
    (h : skipComma isFirst s = .ok rest) : rest.length ≤ s.length := by
  cases isFirst with
  | true => cases h; exact Nat.le_refl _
  | false =>
    obtain ⟨⟨_, left⟩, hmark, h⟩ := map_eq_ok_iff.mp h
    cases h
    exact Nat.le_of_lt (takes_readMark ',' hmark)

/-- Takes a member, and gives the members with its value if they know its name. -/
def readMember (limit : Nat) (isFirst : Bool) (members : Members) : Reader Members := fun s => do
  let s ← skipComma isFirst s
  let (name, rest) ← readName true s
  match members.lookup (String.ofList name) with
  | some (some _) => .error .mismatch
  | some none => do
    let ((), rest) ← readMark ':' rest
    let (value, rest) ← readNatural limit rest
    return (members.set (String.ofList name) value, rest)
  | none => do
    let ((), rest) ← readMark ':' rest
    let ((), rest) ← readAny rest
    return (members, rest)

theorem takes_readMember (limit : Nat) (isFirst : Bool) (members : Members) :
    (readMember limit isFirst members).Takes := by
  intro s value rest h
  obtain ⟨start, hcomma, h⟩ := bind_eq_ok_iff.mp h
  obtain ⟨⟨name, afterName⟩, hname, h⟩ := bind_eq_ok_iff.mp h
  have hlt := Nat.lt_of_lt_of_le (takes_readName true hname) (length_skipComma_le hcomma)
  dsimp only at h
  split at h
  case h_1 => cases h
  all_goals
    obtain ⟨⟨_, afterMark⟩, hmark, h⟩ := bind_eq_ok_iff.mp h
    obtain ⟨⟨_, afterValue⟩, hvalue, h⟩ := bind_eq_ok_iff.mp h
    cases h
    have hmarkLt := Nat.lt_trans (takes_readMark ':' hmark) hlt
  case h_2 => exact Nat.lt_trans (takes_readNatural limit hvalue) hmarkLt
  case h_3 => exact Nat.lt_trans (takes_readAny hvalue) hmarkLt

def readMembers (limit : Nat) (isFirst : Bool) (members : Members) (s : List Char) :
    Except Fault (Members × List Char) :=
  match skipBlanks s with
  | '\x7d' :: rest => .ok (members, rest)
  | _ =>
    match h : readMember limit isFirst members s with
    | .error fault => .error fault
    | .ok (found, rest) =>
      have : rest.length < s.length := takes_readMember limit isFirst members h
      readMembers limit false found rest
termination_by s.length

/-- Takes a value for each place up to and with the closing bracket, which may leave the
    last places without one. -/
def readPlaces (limit : Nat) : (isFirst : Bool) → (places : Nat) → Reader (List (Option Nat))
  | _, 0, s => (readMark ']' s).map fun (_, rest) => ([], rest)
  | isFirst, places + 1, s =>
    match skipBlanks s with
    | ']' :: rest => .ok (List.replicate (places + 1) none, rest)
    | _ => do
      let s ← skipComma isFirst s
      let (value, rest) ← readNatural limit s
      let (values, rest) ← readPlaces limit false places rest
      return (some value :: values, rest)

/-- Takes the values of a record whose members have the given names. -/
def readValues (names : List String) (limit : Nat) : Reader (List (Option Nat)) := fun s =>
  match skipBlanks s with
  | '[' :: rest => readPlaces limit true names.length rest
  | '\x7b' :: rest =>
    (readMembers limit true (names.map fun name => (name, none)) rest).map fun (members, rest) =>
      (members.map Prod.snd, rest)
  | _ => .error (mismatchOf s)

/-- Takes a record and makes something of its values, unless too many are missing. -/
def readRecord {α : Type} (names : List String) (limit : Nat)
    (make? : List (Option Nat) → Option α) : Reader α := fun s => do
  let (values, rest) ← readValues names limit s
  match make? values with
  | some value => .ok (value, rest)
  | none => .error .mismatch

/-! ### Choices -/

/-- Takes the name of a choice.  Where a name is due, whatever is no string is
    malformed. -/
def readOption {α : Type} (choice? : String → Option α) : Reader α := fun s => do
  let (name, rest) ← readName true s
  match choice? (String.ofList name) with
  | some choice => .ok (choice, rest)
  | none => .error .mismatch

def readNull : Reader Unit := fun s =>
  match skipBlanks s with
  | 'n' :: rest => readWord "ull".toList rest
  | _ => .error (mismatchOf s)

def readChoice {α : Type} (choice? : String → Option α) : Reader α := fun s =>
  match skipBlanks s with
  | [] => .error .ended
  | '"' :: _ => readOption choice? s
  | '\x7b' :: rest => do
    let (choice, rest) ← readOption choice? rest
    let ((), rest) ← readMark ':' rest
    let ((), rest) ← readNull rest
    let ((), rest) ← readMark '\x7d' rest
    return (choice, rest)
  | _ => .error .malformed

/-! ### Documents -/

/-- Reads a text that holds one value and nothing but blanks around it. -/
def readDocument {α : Type} (reader : Reader α) (text : String) : Except Fault α := do
  let (value, rest) ← reader text.toList
  if (skipBlanks rest).isEmpty then .ok value else .error .malformed

def listText (values : List (List Char)) : List Char :=
  '[' :: [','].intercalate values ++ [']']

def recordText (members : List (String × List Char)) : List Char :=
  '\x7b' :: [','].intercalate (members.map fun (name, value) => quote name.toList ++ ':' :: value)
    ++ ['\x7d']

end Cron.Json
