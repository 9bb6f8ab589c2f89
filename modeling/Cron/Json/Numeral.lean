/-
  Cron/Json/Numeral.lean
  ======================
  **Numbers as JSON writes them.**

  A JSON number has a whole part without superfluous zeros and may have a sign, a
  fraction and an exponent.  The values read here are natural numbers, so anything
  written with one of those three is a number, but not of the kind asked for.

  Numbers with a fraction, an exponent or too many digits are taken for doubles, and
  one that no double can hold is not accepted as a number at all.  Its value is
  found in the usual short way: the first digits that fit a 64-bit word are kept,
  the word and a power of ten are each rounded to a double, and so is their product.
-/
import Cron.Json.Reader
import Cron.Text.Decimal

namespace Cron.Json

open Cron.Text

/-! ### Reading -/

structure Numeral where
  negative : Bool
  whole : List Char
  fraction : List Char
  exponent? : Option Int
deriving DecidableEq, Repr

/-- Takes one digit or more.  A text that ends before the first digit has the fault
    `atEnd`. -/
def readDigits (atEnd : Fault) : Reader (List Char) := fun s =>
  match s.takeWhile Char.isDigit with
  | [] => .error (if s.isEmpty then atEnd else .malformed)
  | digits => .ok (digits, s.dropWhile Char.isDigit)

def readFraction (atEnd : Fault) : Reader (List Char)
  | '.' :: rest => readDigits atEnd rest
  | s => .ok ([], s)

def readExponent (atEnd : Fault) : Reader (Option Int)
  | 'e' :: rest | 'E' :: rest =>
    let (sign, unsigned) : Int × List Char :=
      match rest with
      | '-' :: rest => (-1, rest)
      | '+' :: rest => (1, rest)
      | _ => (1, rest)
    (readDigits atEnd unsigned).map fun (digits, rest) => (some (sign * decimal digits), rest)
  | s => .ok (none, s)

def readUnsigned (atEnd : Fault) (negative : Bool) : Reader Numeral := fun s => do
  let (whole, rest) ← readDigits atEnd s
  if whole.head? == some '0' && 1 < whole.length then .error .malformed
  else
    let (fraction, rest) ← readFraction atEnd rest
    let (exponent?, rest) ← readExponent atEnd rest
    return (⟨negative, whole, fraction, exponent?⟩, rest)

def readNumeral (atEnd : Fault) : Reader Numeral
  | '-' :: rest => readUnsigned atEnd true rest
  | s => readUnsigned atEnd false s

/-! ### Values -/

/-- The value of a number that is written as a natural number. -/
def Numeral.natural? (numeral : Numeral) : Option Nat :=
  if !numeral.negative && numeral.fraction.isEmpty && numeral.exponent?.isNone then
    some (decimal numeral.whole)
  else none

/-- The word that digits add up to after `word`, and the number of digits left over
    because they do not fit. -/
def fillWord : (word : Nat) → (digits : List Char) → Nat × Nat
  | word, [] => (word, 0)
  | word, digit :: digits =>
    let longer := Nat.ofDigitChars 10 [digit] word
    if longer < UInt64.size then fillWord longer digits else (word, digits.length + 1)

/-- The double nearest to a natural number, and of two the one with an even last
    place, as if doubles had no largest value. -/
def toDouble (n : Nat) : Nat :=
  let unit := Nat.pow 2 (n.log2 - 52)
  let below := n / unit
  let excess := 2 * (n % unit)
  if unit < excess || (unit == excess && below % 2 == 1) then (below + 1) * unit
  else below * unit

/-- Whether the product of a word and a power of ten exceeds all doubles. -/
def exceedsDoubles (word : Nat) (exponent : Int) : Bool :=
  word != 0 && 0 ≤ exponent &&
    (308 < exponent ||
      Nat.pow 2 1024 ≤ toDouble (toDouble word * toDouble (Nat.pow 10 exponent.toNat)))

def Numeral.isTooLarge (numeral : Numeral) : Bool :=
  let (wholeWord, dropped) := fillWord 0 numeral.whole
  let (word, unused) := fillWord wholeWord numeral.fraction
  let places : Int := (numeral.fraction.length : Int) - unused
  exceedsDoubles word (dropped - places + numeral.exponent?.getD 0)

/-! ### Progress -/

theorem takes_readDigits (atEnd : Fault) : (readDigits atEnd).Takes := by
  intro s value rest h
  unfold readDigits at h
  split at h
  case h_1 => cases h
  case h_2 digits hne =>
    obtain ⟨_, rfl⟩ := Prod.mk.inj (Except.ok.inj h)
    have hpos : 0 < (s.takeWhile Char.isDigit).length := List.length_pos_iff.mpr hne
    have hsplit : s.takeWhile Char.isDigit ++ s.dropWhile Char.isDigit = s :=
      List.takeWhile_append_dropWhile
    have hlength := congrArg List.length hsplit
    rw [List.length_append] at hlength
    omega

theorem length_readFraction_le {atEnd : Fault} {s value rest : List Char}
    (h : readFraction atEnd s = .ok (value, rest)) : rest.length ≤ s.length := by
  unfold readFraction at h
  split at h
  case h_1 => exact Nat.le_succ_of_le (Nat.le_of_lt (takes_readDigits atEnd h))
  case h_2 => cases h; exact Nat.le_refl _

theorem length_readExponent_le {atEnd : Fault} {s rest : List Char} {value : Option Int}
    (h : readExponent atEnd s = .ok (value, rest)) : rest.length ≤ s.length := by
  unfold readExponent at h
  split at h
  case h_3 => cases h; exact Nat.le_refl _
  all_goals
    obtain ⟨digits, hdigits, h⟩ := map_eq_ok_iff.mp h
    cases h
    have hlt := takes_readDigits atEnd hdigits
    split at hlt
    all_goals
      simp only [List.length_cons] at hlt ⊢
      omega

theorem takes_readUnsigned (atEnd : Fault) (negative : Bool) :
    (readUnsigned atEnd negative).Takes := by
  intro s value rest h
  obtain ⟨⟨whole, afterWhole⟩, hwhole, h⟩ := bind_eq_ok_iff.mp h
  dsimp only at h
  split at h
  case isTrue => cases h
  case isFalse =>
    obtain ⟨⟨fraction, afterFraction⟩, hfraction, h⟩ := bind_eq_ok_iff.mp h
    obtain ⟨⟨exponent, afterExponent⟩, hexponent, h⟩ := bind_eq_ok_iff.mp h
    cases h
    calc afterExponent.length
      _ ≤ afterFraction.length := length_readExponent_le hexponent
      _ ≤ afterWhole.length := length_readFraction_le hfraction
      _ < s.length := takes_readDigits atEnd hwhole

theorem takes_readNumeral (atEnd : Fault) : (readNumeral atEnd).Takes := by
  intro s value rest h
  unfold readNumeral at h
  split at h
  case h_1 => exact Nat.lt_succ_of_lt (takes_readUnsigned atEnd true h)
  case h_2 => exact takes_readUnsigned atEnd false h

end Cron.Json
