/-
  Cron/FieldTexts.lean
  ====================
  **An expression as six words.**

  Reading an expression begins by splitting it at blanks.  The grammar check trims
  the expression, splits it and counts the words.  The expansion splits it anew, as
  it stands, and takes the words at the six places.  Both look at the same text for
  the same field, since trimming loses no word.
-/
import Cron.Fault
import Cron.Success
import Cron.Text.Blank

namespace Cron

open Cron.Text

structure FieldTexts where
  second : List Char
  minute : List Char
  hour : List Char
  day : List Char
  month : List Char
  weekday : List Char
deriving DecidableEq, Repr

namespace FieldTexts

def get (texts : FieldTexts) : Field → List Char
  | .second => texts.second
  | .minute => texts.minute
  | .hour => texts.hour
  | .day => texts.day
  | .month => texts.month
  | .weekday => texts.weekday

def toList (texts : FieldTexts) : List (List Char) := Field.all.map texts.get

/-- Any six words can be the texts of the fields. -/
theorem exists_eq_toList {words : List (List Char)} (h : words.length = 6) :
    ∃ texts : FieldTexts, words = texts.toList := by
  match words, h with
  | [second, minute, hour, day, month, weekday], _ =>
    exact ⟨⟨second, minute, hour, day, month, weekday⟩, rfl⟩

/-- The texts of six words, or the number of words when there are not six. -/
def ofWords : (words : List (List Char)) → Except GrammarError FieldTexts
  | [second, minute, hour, day, month, weekday] =>
    .ok ⟨second, minute, hour, day, month, weekday⟩
  | found => .error (.fieldCount found.length)

theorem ofWords_eq_ok_iff {found : List (List Char)} {texts : FieldTexts} :
    ofWords found = .ok texts ↔ found = texts.toList := by
  unfold ofWords
  split
  case h_1 =>
    cases texts
    simp [toList, get, Field.all]
  case h_2 hcount =>
    simp only [reduceCtorEq, false_iff]
    exact hcount _ _ _ _ _ _

/-- The six words of an expression, or what is wrong with their number.  The expression
    is trimmed before it is asked whether anything is left of it. -/
def ofExpression (expression : String) : Except GrammarError FieldTexts :=
  let text := trim expression.toList
  if text.isEmpty then .error .emptyExpression else ofWords (words text)

/-- Trimming makes no difference: all that counts is the words. -/
theorem ofExpression_eq (expression : String) :
    ofExpression expression =
      if words expression.toList = [] then .error .emptyExpression
      else ofWords (words expression.toList) := by
  simp only [ofExpression, words_trim, List.isEmpty_iff, trim_eq_nil_iff]

/-- The six texts of an expression are its words. -/
theorem ofExpression_eq_ok_iff {expression : String} {texts : FieldTexts} :
    ofExpression expression = .ok texts ↔ words expression.toList = texts.toList := by
  rw [ofExpression_eq, ite_error_eq_ok_iff, ofWords_eq_ok_iff, and_iff_right_iff_imp]
  intro h hnil
  rw [hnil] at h
  cases h

/-- The texts that stand at the places of the fields, in a list that is long enough. -/
def atPlaces (words : List (List Char)) : FieldTexts :=
  ⟨words[0]!, words[1]!, words[2]!, words[3]!, words[4]!, words[5]!⟩

@[simp] theorem atPlaces_toList (texts : FieldTexts) : atPlaces texts.toList = texts := rfl

end FieldTexts

end Cron
