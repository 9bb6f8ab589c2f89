/-
  Cron/Proofs/Spelling.lean
  =========================
  **How an expression is spelled does not matter.**

  An expression can be written with any blanks around its words, and its names in any case.
  Both readers take a text in lower case as they take the text itself: they stop at the same
  place for the same reason, and the token that they name is the one of the text, in lower
  case too (`check_lower`, `expand_lower`).  This is shown step by step, along the way in
  which a field is taken apart.

  So two expressions whose words differ in the case of letters at most are accepted both or
  neither.  If they are accepted they denote the same schedule, and otherwise they are at
  fault in the same field and in the same way (`parse_of_spelledAlike`).
-/
import Cron.Proofs.Agreement
import Cron.Proofs.Document
import Cron.Proofs.Letters

namespace Cron

open Cron.Text

/-! ### Faults -/

/-- The fault with its token in lower case, and otherwise the same. -/
def FieldFault.lower : FieldFault → FieldFault
  | .empty => .empty
  | .illegalCharacter token character => .illegalCharacter token.toLower character
  | .malformedList token => .malformedList token.toLower
  | .malformedStep token => .malformedStep token.toLower
  | .nonPositiveStep token => .nonPositiveStep token.toLower
  | .malformedRange token => .malformedRange token.toLower
  | .invertedRange token start stop => .invertedRange token.toLower start stop
  | .unknownName token => .unknownName token.toLower
  | .outOfRange token bounds => .outOfRange token.toLower bounds

/-- The error with the token of its fault in lower case, and otherwise the same. -/
def GrammarError.lower : GrammarError → GrammarError
  | .emptyExpression => .emptyExpression
  | .fieldCount found => .fieldCount found
  | .inField field fault => .inField field fault.lower

def ExpansionFault.lower : ExpansionFault → ExpansionFault
  | .empty => .empty
  | .outOfRange value bounds => .outOfRange value bounds
  | .unknownName token => .unknownName token.toLower
  | .invertedRange start stop => .invertedRange start stop
  | .invalidStep token => .invalidStep token.toLower

/-! ### The check of a field -/

namespace Field

/-- Renaming the errors of two values that are read in order. -/
theorem mapError_ordered {ε ε' α : Type} {f : ε → ε'} {read : List Char → Except ε Nat}
    {fault : Nat → Nat → ε} {ends : Nat → Nat → α} {start stop : List Char} :
    (do let first ← read start
        let last ← read stop
        if last < first then .error (fault first last) else .ok (ends first last) :
      Except ε α).mapError f =
      (do let first ← (read start).mapError f
          let last ← (read stop).mapError f
          if last < first then .error (f (fault first last)) else .ok (ends first last)) := by
  rw [mapError_bind]
  congr 1
  funext first
  rw [mapError_bind]
  congr 1
  funext last
  rw [mapError_ite_error]
  rfl

variable (field : Field) (token base item text : List Char)

theorem valueOfName?_lower : field.valueOfName? (lower token) = field.valueOfName? token := by
  have hlower : (lower token).map Char.toLower = token.map Char.toLower := lower_lower token
  rw [valueOfName?, hlower, valueOfName?]

theorem value?_lower : field.value? (lower token) = field.value? token := by
  rw [value?, valueOfName?_lower, literal?_lower, value?]

theorem checkValue_lower :
    field.checkValue (lower token) = (field.checkValue token).mapError FieldFault.lower := by
  rw [checkValue, valueOfName?_lower, isDigits_lower, value?_lower, ← toLower_ofList, checkValue]
  cases field.valueOfName? token with
  | some value => rfl
  | none =>
    rw [mapError_ite_error]
    cases (field.value? token).filter field.bounds.contains with
    | none => rfl
    | some value => rfl

theorem checkBase_lower :
    field.checkBase (lower base) = (field.checkBase base).mapError FieldFault.lower := by
  rw [checkBase, splitOn_lower (by decide), ← toLower_ofList, checkBase]
  simp only [lower_eq_star_iff]
  by_cases hstar : base = ['*']
  · rw [if_pos hstar, if_pos hstar]
    rfl
  rw [if_neg hstar, if_neg hstar]
  rcases base.splitOn '-' with _ | ⟨start, _ | ⟨stop, _ | ⟨third, rest⟩⟩⟩
  case nil => rfl
  case cons.nil =>
    change (field.checkValue (lower base)).map _ = _
    rw [checkValue_lower]
    exact mapError_map.symm
  case cons.cons.nil =>
    simp only [List.map_cons, List.map_nil, isEmpty_lower, checkValue_lower]
    rw [mapError_ite_error, mapError_ordered]
    rfl
  case cons.cons.cons => rfl

theorem checkItem_lower :
    field.checkItem (lower item) = (field.checkItem item).mapError FieldFault.lower := by
  rw [checkItem, cutAt?_lower (by decide), ← toLower_ofList, checkItem]
  cases cutAt? '/' item with
  | none => exact field.checkBase_lower item
  | some parts =>
    obtain ⟨base, step⟩ := parts
    simp only [Option.map_some, Prod.map_apply, isEmpty_lower, literal?_lower]
    cases base.isEmpty with
    | true => rfl
    | false =>
      cases literal? step with
      | none => rfl
      | some count =>
        cases count with
        | zero => rfl
        | succ => exact field.checkBase_lower base

theorem checkListed_lower :
    field.checkListed (lower item) = (field.checkListed item).mapError FieldFault.lower := by
  rw [checkListed, isEmpty_lower, checkItem_lower, checkListed, mapError_ite_error]
  rfl

theorem admitsChar_toLower : ∀ c, admitsChar (Char.toLower c) = admitsChar c :=
  test_toLower fun _ h => by rw [admitsChar, isAlphanum_of_isAlpha h, Bool.true_or]

/-- An illegal character is no letter, and lower case leaves it as it is. -/
theorem find?_illegal_lower :
    (lower text).find? (fun c => !admitsChar c) = text.find? fun c => !admitsChar c := by
  have hillegal : ∀ c, (!admitsChar (Char.toLower c)) = !admitsChar c := by
    intro c
    rw [admitsChar_toLower]
  rw [lower, List.find?_map, comp_toLower hillegal]
  cases hfind : text.find? fun c => !admitsChar c with
  | none => rfl
  | some c =>
    have hc := List.find?_some hfind
    rw [Bool.not_eq_true', admitsChar, Bool.or_eq_false_iff, Char.isAlphanum,
      Bool.or_eq_false_iff] at hc
    rw [Option.map_some, toLower_of_not_isAlpha hc.1.1]

theorem check_lower :
    field.check (lower text) = (field.check text).mapError FieldFault.lower := by
  rw [check, isEmpty_lower, find?_illegal_lower, ← toLower_ofList, hasStray_lower (by decide),
    splitOn_lower (by decide), check]
  rw [mapError_ite_error]
  congr 1
  cases text.find? fun c => !admitsChar c with
  | some c => rfl
  | none =>
    simp only
    rw [mapError_ite_error, mapError_forM]
    congr 1
    simp only [← checkListed_lower]
    exact List.forM_map

/-! ### The expansion of a field -/

theorem resolve_lower :
    field.resolve (lower token) = (field.resolve token).mapError ExpansionFault.lower := by
  rw [resolve, value?_lower, ← toLower_ofList, resolve]
  cases field.value? token with
  | none => rfl
  | some value =>
    rw [apply_ite (Except.mapError ExpansionFault.lower)]
    rfl

theorem readStep_lower : readStep (lower text) = (readStep text).mapError ExpansionFault.lower := by
  rw [readStep, literal?_lower, ← toLower_ofList, readStep]
  cases literal? text with
  | none => rfl
  | some count =>
    cases count with
    | zero => rfl
    | succ => rfl

theorem readEnds_lower (isOpen : Bool) :
    field.readEnds isOpen (lower base) =
      (field.readEnds isOpen base).mapError ExpansionFault.lower := by
  rw [readEnds, cutAt?_lower (by decide), readEnds]
  simp only [lower_eq_star_iff]
  by_cases hstar : base = ['*']
  · rw [if_pos hstar, if_pos hstar]
    rfl
  rw [if_neg hstar, if_neg hstar]
  cases cutAt? '-' base with
  | none =>
    simp only [Option.map_none, resolve_lower]
    exact mapError_map.symm
  | some parts =>
    simp only [Option.map_some, Prod.map_fst, Prod.map_snd, resolve_lower]
    rw [mapError_ordered]
    rfl

theorem readItem_lower :
    field.readItem (lower item) = (field.readItem item).mapError ExpansionFault.lower := by
  rw [readItem, isEmpty_lower, cutAt?_lower (by decide), readItem]
  rw [mapError_ite_error]
  congr 1
  cases cutAt? '/' item with
  | none =>
    simp only [Option.map_none, readEnds_lower]
    exact mapError_map.symm
  | some parts =>
    simp only [Option.map_some, Prod.map_fst, Prod.map_snd, readStep_lower, readEnds_lower,
      mapError_bind]
    rfl

theorem strides_lower :
    field.strides (lower text) = (field.strides text).mapError ExpansionFault.lower := by
  rw [strides, splitOn_lower (by decide), strides, mapError_mapM, List.mapM_map]
  simp only [Function.comp_def, trim_lower, readItem_lower]

variable {text : List Char}

theorem expand_lower {values : List Nat} :
    field.expand (lower text) = .ok values ↔ field.expand text = .ok values := by
  simp only [expand_eq_ok_iff, strides_lower, mapError_eq_ok_iff]

end Field

/-! ### Expressions -/

namespace FieldTexts

def lower (texts : FieldTexts) : FieldTexts :=
  ⟨Text.lower texts.second, Text.lower texts.minute, Text.lower texts.hour, Text.lower texts.day,
    Text.lower texts.month, Text.lower texts.weekday⟩

theorem get_lower (texts : FieldTexts) (field : Field) :
    texts.lower.get field = Text.lower (texts.get field) := by
  cases field <;> rfl

theorem check_lower (texts : FieldTexts) :
    texts.lower.check = texts.check.mapError GrammarError.lower := by
  rw [check, check, mapError_forM]
  congr 1
  funext field
  rw [get_lower, Field.check_lower]
  cases field.check (texts.get field) with
  | error fault => rfl
  | ok => rfl

theorem ofWords_map_lower (found : List (List Char)) :
    ofWords (found.map Text.lower) =
      ((ofWords found).map FieldTexts.lower).mapError GrammarError.lower := by
  rcases found with
    _ | ⟨_, _ | ⟨_, _ | ⟨_, _ | ⟨_, _ | ⟨_, _ | ⟨_, _ | ⟨_, rest⟩⟩⟩⟩⟩⟩⟩
  case cons.cons.cons.cons.cons.cons.cons =>
    simp only [List.map_cons, ofWords, List.length_cons, List.length_map]
    rfl
  all_goals rfl

theorem ofExpression_toLower (text : String) :
    ofExpression text.toLower =
      ((ofExpression text).map FieldTexts.lower).mapError GrammarError.lower := by
  rw [ofExpression_eq, words_toLower, ofExpression_eq, ofWords_map_lower]
  simp only [List.map_eq_nil_iff]
  split
  case isTrue => rfl
  case isFalse => rfl

end FieldTexts

theorem checkExpression_toLower (text : String) :
    checkExpression text.toLower = (checkExpression text).mapError GrammarError.lower := by
  rw [checkExpression, FieldTexts.ofExpression_toLower, checkExpression]
  cases FieldTexts.ofExpression text with
  | error error => rfl
  | ok texts => exact texts.check_lower

namespace Schedule

variable {schedule : Schedule} {text left right : String}

theorem ofTexts_lower {texts : FieldTexts} :
    ofTexts texts.lower = .ok schedule ↔ ofTexts texts = .ok schedule := by
  simp only [ofTexts_eq_ok_iff, FieldTexts.get_lower, Field.expand_lower]

theorem parse_toLower :
    Schedule.parse text.toLower = .ok schedule ↔ Schedule.parse text = .ok schedule := by
  rw [parse_eq_ok_iff, parse_eq_ok_iff, checkExpression_toLower, mapError_eq_ok_iff,
    FieldTexts.ofExpression_toLower]
  apply and_congr_right
  intro _
  simp only [mapError_eq_ok_iff, map_eq_ok_iff]
  constructor
  · rintro ⟨_, ⟨texts, htexts, rfl⟩, h⟩
    exact ⟨texts, htexts, ofTexts_lower.mp h⟩
  · rintro ⟨texts, htexts, h⟩
    exact ⟨texts.lower, ⟨texts, htexts, rfl⟩, ofTexts_lower.mpr h⟩

/-- **Spelling.**  Two texts whose words are spelled alike are either both accepted and
    denote the same schedule, or both rejected.  The two errors are then the same but for
    the case of the tokens that they name. -/
theorem parse_of_spelledAlike
    (h : List.Forall₂ SpelledAlike (words left.toList) (words right.toList)) :
    (checkExpression left = .ok () ∧ checkExpression right = .ok () ∧
        ∃ schedule, Schedule.parse left = .ok schedule ∧ Schedule.parse right = .ok schedule) ∨
      ∃ error other, checkExpression left = .error error ∧ checkExpression right = .error other ∧
        error.lower = other.lower := by
  have hwords := words_toLower_eq h
  have hcheck : (checkExpression left).mapError GrammarError.lower =
      (checkExpression right).mapError GrammarError.lower := by
    rw [← checkExpression_toLower, ← checkExpression_toLower,
      checkExpression_eq_of_words_eq hwords]
  cases hleft : checkExpression left with
  | ok =>
    left
    rw [hleft] at hcheck
    have hright := mapError_eq_ok_iff.mp hcheck.symm
    obtain ⟨schedule, hschedule⟩ := exists_parse hleft
    refine ⟨rfl, hright, schedule, hschedule, ?_⟩
    rw [← parse_toLower, parse_eq_of_words_eq hwords] at hschedule
    exact parse_toLower.mp hschedule
  | error error =>
    right
    rw [hleft] at hcheck
    obtain ⟨other, hright, hsame⟩ := mapError_eq_error_iff.mp hcheck.symm
    exact ⟨error, other, rfl, hright, hsame.symm⟩

/-- Mondays, Wednesdays and Fridays of three months, under two spellings.  From Friday to
    Tuesday the days run backwards, however this is written. -/
theorem parse_spelledAlike_weekdays :
    let left := "\t0 0\u20039 * JAN,feb-Apr MON-5/2\n"
    let right := "0 0 9  * jan,FEB-aPR mon-5/2"
    let other := "\u00a00 0 9 * * SUN,fri-TUE"
    List.Forall₂ SpelledAlike (words left.toList) (words right.toList) ∧
      (∃ schedule, Schedule.parse left = .ok schedule ∧ Schedule.parse right = .ok schedule) ∧
      List.Forall₂ SpelledAlike (words "0 0 9 * * sun,FRI-tue".toList) (words other.toList) ∧
      checkExpression "0 0 9 * * sun,FRI-tue" =
        .error (.inField .weekday (.invertedRange "FRI-tue" 5 2)) ∧
      ∃ error, checkExpression other = .error error ∧
        error.lower = .inField .weekday (.invertedRange "fri-tue" 5 2) := by
  intro left right other
  have hmonths : List.Forall₂ SpelledAlike (words left.toList) (words right.toList) := by
    decide +kernel
  have hdays : List.Forall₂ SpelledAlike (words "0 0 9 * * sun,FRI-tue".toList)
      (words other.toList) := by
    decide +kernel
  have haccepts : checkExpression left = .ok () := by decide +kernel
  have hrejects : checkExpression "0 0 9 * * sun,FRI-tue" =
      .error (.inField .weekday (.invertedRange "FRI-tue" 5 2)) := by
    decide +kernel
  refine ⟨hmonths, ?_, hdays, hrejects, ?_⟩
  · rcases parse_of_spelledAlike hmonths with ⟨_, _, hparse⟩ | ⟨_, _, herror, _⟩
    · exact hparse
    · rw [haccepts] at herror
      cases herror
  · rcases parse_of_spelledAlike hdays with ⟨hok, _⟩ | ⟨error, error', herror, herror', hsame⟩
    · rw [hrejects] at hok
      cases hok
    · rw [hrejects] at herror
      cases herror
      exact ⟨error', herror', hsame.symm.trans (by decide +kernel)⟩

end Schedule

end Cron
