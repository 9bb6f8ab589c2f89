/-
  Cron/Text/Decimal.lean
  ======================
  **Decimal numbers as they are written.**

  A numeral is a non-empty run of the ten ASCII digits, with any number of
  leading zeros.  Its value is unbounded; a *literal* is a numeral whose value
  fits a 32-bit word, which is the widest number a schedule works with.
-/

namespace Cron.Text

/-! ### Reading -/

/-- Whether a text is a numeral: one ASCII digit or more, and nothing else. -/
def isDigits (s : List Char) : Bool := !s.isEmpty && s.all Char.isDigit

def decimal (digits : List Char) : Nat := Nat.ofDigitChars 10 digits 0

/-- The first value too large for a literal. -/
def literalLimit : Nat := UInt32.size

/-- The value of a numeral that fits a 32-bit word. -/
def literal? (s : List Char) : Option Nat :=
  if isDigits s && decimal s < literalLimit then some (decimal s) else none

/-! ### Writing -/

/-- The shortest numeral of a value. -/
def numeral (n : Nat) : List Char := Nat.toDigits 10 n

/-- The numeral of a value, filled up with leading zeros to at least `width` digits. -/
def paddedNumeral (width n : Nat) : List Char := (numeral n).leftpad width '0'

theorem decimal_numeral (n : Nat) : decimal (numeral n) = n :=
  Nat.ofDigitChars_toDigits (by decide) (by decide)

/-- What is written for a number is a numeral. -/
theorem isDigits_numeral (n : Nat) : isDigits (numeral n) = true := by
  have hdigits : ∀ c ∈ numeral n, c.isDigit = true := fun _ hc =>
    Nat.isDigit_of_mem_toDigits (by decide) (by decide) hc
  have hne : numeral n ≠ [] := by simp [numeral]
  simpa [isDigits, hne] using hdigits

end Cron.Text
