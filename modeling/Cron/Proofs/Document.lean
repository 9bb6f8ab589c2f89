/-
  Cron/Proofs/Document.lean
  =========================
  **Expressions survive being written as documents.**

  An expression holds the trimmed text that it was read from, with the blanks between its
  words as they were, and a document holds this text as a string.  Quoting is undone
  exactly, trimming twice is trimming once, and trimming changes no word, so the text reads
  as the schedule that it was read as before.  Nothing else about an expression is kept,
  and nothing else matters: two of them are equal when their trimmed texts are.
-/
import Cron.Document
import Cron.Proofs.Grammar
import Cron.Proofs.Schedule

namespace Cron

open Cron.Json
open Cron.Text

/-! ### Quoted strings -/

/-- A quoted string reads as itself, whatever comes after it. -/
theorem Json.readString_quote (s rest : List Char) :
    readString (quote s ++ rest) = .ok (s, rest) := by
  have hskip : skipBlanks (quote s ++ rest) = '"' :: (s.flatMap escape ++ '"' :: rest) := by
    simp [quote, skipBlanks, isBlank]
  rw [readString, hskip]
  exact readQuoted_flatMap_escape true s rest

/-! ### Trimmed texts -/

/-- A text is read as its words say, so that the blanks around them do not matter. -/
theorem Schedule.parse_eq_of_words_eq {text other : String}
    (h : words text.toList = words other.toList) : Schedule.parse text = Schedule.parse other := by
  rw [Schedule.parse, Schedule.parse, checkExpression_eq_of_words_eq h, h]

theorem Schedule.parse_eq_of_trim_eq {text other : String}
    (h : trim text.toList = trim other.toList) : Schedule.parse text = Schedule.parse other := by
  apply parse_eq_of_words_eq
  rw [← words_trim text.toList, h, words_trim]

namespace Expression

variable {text other : String} {expression : Expression}

theorem parse_eq_ok_iff :
    parse text = .ok expression ↔
      Schedule.parse text = .ok expression.schedule ∧
        expression.text = String.ofList (trim text.toList) := by
  rw [parse, map_eq_ok_iff]
  constructor
  · rintro ⟨schedule, hschedule, rfl⟩
    exact ⟨hschedule, rfl⟩
  · rintro ⟨hschedule, htext⟩
    refine ⟨expression.schedule, hschedule, ?_⟩
    rw [← htext]

/-- What was trimmed off is of no use for reading the text again. -/
theorem parse_eq_of_trim_eq (h : trim text.toList = trim other.toList) :
    parse text = parse other := by
  rw [parse, parse, Schedule.parse_eq_of_trim_eq h, h]

theorem parse_text (h : parse text = .ok expression) : parse expression.text = .ok expression := by
  have htrim : trim expression.text.toList = trim text.toList := by
    rw [(parse_eq_ok_iff.mp h).2, String.toList_ofList, trim_trim]
  rw [parse_eq_of_trim_eq htrim, h]

theorem eq_iff_of_parse {left right : Expression} (hleft : parse text = .ok left)
    (hright : parse other = .ok right) :
    left = right ↔ trim text.toList = trim other.toList := by
  constructor
  · rintro rfl
    have htext := (parse_eq_ok_iff.mp hleft).2
    rw [(parse_eq_ok_iff.mp hright).2] at htext
    exact String.ofList_injective htext.symm
  · intro h
    rw [parse_eq_of_trim_eq h, hright] at hleft
    exact (Except.ok.inj hleft).symm

/-! ### Documents -/

theorem ofJson_of_readString {document : String} {source rest : List Char}
    (h : readString document.toList = .ok (source, rest)) :
    ofJson document =
      (parse (String.ofList source)).mapError DocumentError.rejected >>= fun expression =>
        if (skipBlanks rest).isEmpty then .ok expression
        else .error (.unreadable .malformed) := by
  rw [ofJson, h]
  rfl

/-- Reading the document of a string is reading the string. -/
theorem ofJson_quote (text : String) :
    ofJson (String.ofList (quote text.toList)) = (parse text).mapError DocumentError.rejected := by
  have hread : readString (String.ofList (quote text.toList)).toList = .ok (text.toList, []) := by
    simpa using readString_quote text.toList []
  rw [ofJson_of_readString hread, String.ofList_toList]
  cases parse text with
  | error cause => rfl
  | ok expression => rfl

theorem ofJson_toJson (h : parse text = .ok expression) :
    ofJson expression.toJson = .ok expression := by
  rw [toJson, ofJson_quote, parse_text h]
  rfl

/-- Every document that is read holds an expression that its own text denotes. -/
theorem parse_text_of_ofJson {document : String} (h : ofJson document = .ok expression) :
    parse expression.text = .ok expression := by
  obtain ⟨⟨source, rest⟩, _, h⟩ := bind_eq_ok_iff.mp h
  obtain ⟨read, hread, h⟩ := bind_eq_ok_iff.mp h
  rw [mapError_eq_ok_iff] at hread
  split at h
  case isTrue =>
    cases h
    exact parse_text hread
  case isFalse => cases h

/-- **Round trip.**  An expression is read back equal from its document and from its text.
    The document of any string is read as the string is, and if that is refused, the
    document does not hold what was asked for, with the same message.  Expressions are
    equal when the trimmed texts are that they were read from. -/
theorem document_roundTrip (text : String) :
    (∀ expression, parse text = .ok expression →
      ofJson expression.toJson = .ok expression ∧ parse expression.text = .ok expression) ∧
    (∀ expression, ofJson (String.ofList (quote text.toList)) = .ok expression ↔
      parse text = .ok expression) ∧
    (∀ cause, parse text = .error cause →
      ∃ error, ofJson (String.ofList (quote text.toList)) = .error error ∧
        error.fault = .mismatch ∧ error.message? = some cause.message) ∧
    ∀ other left right, parse text = .ok left → parse other = .ok right →
      (left = right ↔ trim text.toList = trim other.toList) := by
  refine ⟨?_, ?_, ?_, ?_⟩
  · intro expression h
    exact ⟨ofJson_toJson h, parse_text h⟩
  · intro expression
    rw [ofJson_quote, mapError_eq_ok_iff]
  · intro cause h
    refine ⟨.rejected cause, ?_, rfl, rfl⟩
    rw [ofJson_quote, h]
    rfl
  · intro other left right hleft hright
    exact eq_iff_of_parse hleft hright

/-- An expression with a tab between two of its words, which its document escapes, and a
    text of five words that no document makes an expression. -/
theorem document_roundTrip_sundays :
    let sundays : Expression :=
      ⟨"0\t30 2 * * sun", ⟨[0], [30], [2], List.range' 1 31, List.range' 1 12, [0]⟩⟩
    sundays.toJson = "\"0\\t30 2 * * sun\"" ∧
      parse " 0\t30 2 * * sun\n" = .ok sundays ∧ ofJson sundays.toJson = .ok sundays ∧
      parse "0\t30 2 * * sun" = .ok sundays ∧
      ∃ error, ofJson (String.ofList (quote "30 2 * * sun".toList)) = .error error ∧
        error.fault = .mismatch ∧
        error.message? = some "Syntax error: Cron expression must have 6 fields, got 5" := by
  intro sundays
  have hparse : parse " 0\t30 2 * * sun\n" = .ok sundays := by decide +kernel
  have hcount : parse "30 2 * * sun" = .error (.grammar (.fieldCount 5)) := by decide +kernel
  obtain ⟨hread, htext⟩ := (document_roundTrip " 0\t30 2 * * sun\n").1 sundays hparse
  obtain ⟨error, herror, hfault, hmessage⟩ :=
    (document_roundTrip "30 2 * * sun").2.2.1 (.grammar (.fieldCount 5)) hcount
  exact ⟨by decide +kernel, hparse, hread, htext, error, herror, hfault, hmessage⟩

end Expression

end Cron
