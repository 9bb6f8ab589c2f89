/-
  Cron/Proofs/Grammar.lean
  ========================
  **The expressions that the check accepts.**

  The check takes a text apart: it splits at blanks, then at commas, cuts at slashes and
  hyphens, and stops at the first fault.  The grammar puts a text together: six words with
  blanks around them, in each a list of items with commas between them, and in each item
  a base, alone or with a step.  The texts that pass the check are the ones that the
  grammar can put together (`checkExpression_eq_ok_iff_isList`).
-/
import Cron.Proofs.Denotation

namespace Cron

open Cron.Text

/-! ### Lists of items -/

namespace Field

variable {field : Field} {text : List Char}

/-- A text is a list of items: one item or more, with a comma between any two, and each
    item denotes a stride. -/
def IsList (field : Field) (text : List Char) : Prop :=
  ∃ items, items ≠ [] ∧ text = [','].intercalate items ∧
    ∀ item ∈ items, ∃ stride, field.DenotesStride item stride

theorem check_eq_ok_iff_isList : field.check text = .ok () ↔ field.IsList text := by
  rw [check_eq_ok_iff]
  apply forall_mem_splitOn_iff
  rintro item ⟨stride, hstride⟩
  exact hstride.shape.comma_notMem

end Field

/-! ### Expressions -/

variable {text : String} {texts : FieldTexts}

theorem FieldTexts.check_eq_ok_iff :
    texts.check = .ok () ↔ ∀ field, Field.check field (texts.get field) = .ok () := by
  rw [check, forM_eq_ok_iff]
  simp only [mapError_eq_ok_iff]
  exact ⟨fun h field => h field (Field.mem_all field), fun h field _ => h field⟩

theorem checkExpression_eq_ok_iff :
    checkExpression text = .ok () ↔
      ∃ texts, FieldTexts.ofExpression text = .ok texts ∧
        ∀ field, Field.check field (texts.get field) = .ok () := by
  simp only [checkExpression, bind_eq_ok_iff, FieldTexts.check_eq_ok_iff]

/-- The check looks at the words of a text and at nothing else. -/
theorem checkExpression_eq_of_words_eq {other : String}
    (h : words text.toList = words other.toList) :
    checkExpression text = checkExpression other := by
  rw [checkExpression, checkExpression, FieldTexts.ofExpression_eq, FieldTexts.ofExpression_eq, h]

/-- With the six words at hand, it is enough to look at each in its field. -/
theorem checkExpression_iff_of_texts (h : FieldTexts.ofExpression text = .ok texts) :
    checkExpression text = .ok () ↔ ∀ field, Field.check field (texts.get field) = .ok () := by
  rw [checkExpression, h]
  exact FieldTexts.check_eq_ok_iff

/-- **The grammar.**  The check accepts the texts that are written as six words, each of
    them a list of items of its field. -/
theorem checkExpression_eq_ok_iff_isList (text : String) :
    checkExpression text = .ok () ↔
      ∃ texts : FieldTexts, WrittenAs text.toList texts.toList ∧
        ∀ field : Field, field.IsList (texts.get field) := by
  simp only [checkExpression_eq_ok_iff, FieldTexts.ofExpression_eq_ok_iff, words_eq_iff,
    Field.check_eq_ok_iff_isList]

end Cron
