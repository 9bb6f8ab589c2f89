/-
  Cron/Proofs/Agreement.lean
  ==========================
  **The grammar check and the expansion agree.**

  Nothing in the expansion relies on the check having been made, and nothing in the
  check looks at the expansion; yet they accept the same expressions.  On words, which
  hold no blanks, both readers demand that every item denotes a stride
  (`check_eq_ok_iff_exists_expand`).  So what passes the check is never refused
  afterwards, and reading a schedule fails with the faults of the grammar and with no
  others (`parse_agrees`).
-/
import Cron.Proofs.Grammar
import Cron.Proofs.Schedule

namespace Cron

open Cron.Text

variable {texts : FieldTexts} {text : String}

/-! ### Words as the texts of fields -/

theorem FieldTexts.getElem?_words (h : ofExpression text = .ok texts) (field : Field) :
    (words text.toList)[field.position]? = some (texts.get field) := by
  rw [ofExpression_eq_ok_iff.mp h]
  cases field <;> rfl

theorem FieldTexts.length_words (h : ofExpression text = .ok texts) :
    (words text.toList).length = 6 := by
  rw [ofExpression_eq_ok_iff.mp h]
  rfl

theorem FieldTexts.exists_ofExpression (h : (words text.toList).length = 6) :
    ∃ texts, ofExpression text = .ok texts := by
  obtain ⟨texts, htexts⟩ := exists_eq_toList h
  exact ⟨texts, ofExpression_eq_ok_iff.mpr htexts⟩

/-! ### One field -/

/-- On a word the check and the expansion accept the same. -/
theorem Field.check_eq_ok_iff_exists_expand (field : Field) {s word : List Char}
    (h : word ∈ words s) :
    field.check word = .ok () ↔ ∃ values, field.expand word = .ok values := by
  rw [check_eq_ok_iff, exists_expand_eq_ok_iff]
  refine forall₂_congr fun item hitem => ?_
  rw [trim_eq_self fun c hc => isBlank_of_mem_words h c ((infix_of_mem_splitOn hitem).subset hc)]

theorem FieldTexts.check_iff_exists_expand (h : ofExpression text = .ok texts) (field : Field) :
    field.check (texts.get field) = .ok () ↔
      ∃ values, field.expand (texts.get field) = .ok values :=
  field.check_eq_ok_iff_exists_expand (List.mem_of_getElem? (getElem?_words h field))

/-! ### Whole expressions -/

namespace Schedule

theorem exists_ofTexts (h : ∀ field, ∃ values, Field.expand field (texts.get field) = .ok values) :
    ∃ schedule, ofTexts texts = .ok schedule := by
  choose values hvalues using h
  refine ⟨⟨values .second, values .minute, values .hour, values .day, values .month,
    values .weekday⟩, ofTexts_eq_ok_iff.mpr fun field => ?_⟩
  rw [hvalues field]
  cases field <;> rfl

theorem exists_parse (h : checkExpression text = .ok ()) :
    ∃ schedule, Schedule.parse text = .ok schedule := by
  obtain ⟨texts, htexts, hcheck⟩ := checkExpression_eq_ok_iff.mp h
  obtain ⟨schedule, hschedule⟩ := exists_ofTexts fun field =>
    (FieldTexts.check_iff_exists_expand htexts field).mp (hcheck field)
  exact ⟨schedule, parse_eq_ok_iff.mpr ⟨h, texts, htexts, hschedule⟩⟩

theorem parse_of_checkExpression_error {error : GrammarError}
    (h : checkExpression text = .error error) : Schedule.parse text = .error (.grammar error) := by
  rw [Schedule.parse, h]
  rfl

/-- **Agreement.**  The check accepts a text exactly when it has six words and each
    expands in its place.  A text that is accepted is read as the schedule of what its
    words expand to, one that is not is refused with the error of the check, and the
    expansion is never what fails. -/
theorem parse_agrees (text : String) :
    (checkExpression text = .ok () ↔
      (words text.toList).length = 6 ∧ ∀ field : Field, ∃ word values,
        (words text.toList)[field.position]? = some word ∧ field.expand word = .ok values) ∧
      (match checkExpression text with
        | .ok () => ∃ schedule, Schedule.parse text = .ok schedule ∧
            ∀ field : Field, ∃ word, (words text.toList)[field.position]? = some word ∧
              field.expand word = .ok (schedule.values field)
        | .error error => Schedule.parse text = .error (.grammar error)) ∧
      ∀ error, Schedule.parse text ≠ .error (.expansion error) := by
  refine ⟨⟨fun h => ?_, ?_⟩, ?_, fun error hparse => ?_⟩
  · obtain ⟨texts, htexts, hcheck⟩ := checkExpression_eq_ok_iff.mp h
    refine ⟨FieldTexts.length_words htexts, fun field => ?_⟩
    obtain ⟨values, hvalues⟩ :=
      (FieldTexts.check_iff_exists_expand htexts field).mp (hcheck field)
    exact ⟨_, values, FieldTexts.getElem?_words htexts field, hvalues⟩
  · rintro ⟨hlength, hexpand⟩
    obtain ⟨texts, htexts⟩ := FieldTexts.exists_ofExpression hlength
    refine checkExpression_eq_ok_iff.mpr ⟨texts, htexts, fun field => ?_⟩
    obtain ⟨word, values, hword, hvalues⟩ := hexpand field
    rw [FieldTexts.getElem?_words htexts field, Option.some.injEq] at hword
    rw [← hword] at hvalues
    exact (FieldTexts.check_iff_exists_expand htexts field).mpr ⟨values, hvalues⟩
  · cases hcheck : checkExpression text with
    | error error => exact parse_of_checkExpression_error hcheck
    | ok =>
      obtain ⟨schedule, hschedule⟩ := exists_parse hcheck
      obtain ⟨_, texts, htexts, hvalues⟩ := parse_eq_ok_iff.mp hschedule
      refine ⟨schedule, hschedule, fun field => ?_⟩
      exact ⟨_, FieldTexts.getElem?_words htexts field, ofTexts_eq_ok_iff.mp hvalues field⟩
  · cases hcheck : checkExpression text with
    | error cause =>
      rw [parse_of_checkExpression_error hcheck] at hparse
      cases hparse
    | ok =>
      obtain ⟨schedule, hschedule⟩ := exists_parse hcheck
      rw [hparse] at hschedule
      cases hschedule

end Schedule

end Cron
