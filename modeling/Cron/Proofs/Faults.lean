/-
  Cron/Proofs/Faults.lean
  =======================
  **What is wrong with an expression that the check rejects.**

  A text can be wrong in several places, and the check reports one of them.  Which one
  is a matter of the text alone: an illegal character comes before a stray comma, a stray
  comma before a faulty item, and of the items the first faulty one counts.  In an item
  the step comes before the base, and in a range the start before the end.

  The relations below say what is wrong with a value, a base, an item and a whole text
  without saying how this is found.  Each of them is built so that the condition of one
  fault rules out all those that come before it.  The check reports a fault exactly when
  the text has it in this sense (`checkExpression_eq_error_iff`), in the first field whose
  text is not a list of items.
-/
import Cron.Proofs.Grammar

namespace Cron

open Cron.Text

namespace Field

/-! ### Faults of tokens and items -/

/-- A token is no value of a field: it is neither a name nor a numeral, or it is a numeral
    beyond the bounds. -/
inductive ValueFault (field : Field) (token : List Char) : FieldFault → Prop where
  | unknownName (hname : ∀ entry ∈ field.names, entry.1.toList ≠ token.map Char.toLower)
    (hdigits : isDigits token = false) :
    ValueFault field token (.unknownName (String.ofList token))
  | outOfRange (hdigits : isDigits token = true)
    (hbounds : field.bounds.contains (decimal token) = false) :
    ValueFault field token (.outOfRange (String.ofList token) field.bounds)

/-- A base has one hyphen, with an endpoint on either side. -/
structure IsRange (base start stop : List Char) : Prop where
  base_eq : base = start ++ '-' :: stop
  start_ne_nil : start ≠ []
  stop_ne_nil : stop ≠ []
  start_notMem : '-' ∉ start
  stop_notMem : '-' ∉ stop

/-- What is wrong with a base.  In a range the fault of the start comes first. -/
inductive BaseFault (field : Field) (base : List Char) : FieldFault → Prop where
  | value {fault : FieldFault} (hstar : base ≠ ['*']) (hhyphen : '-' ∉ base)
    (hvalue : field.ValueFault base fault) : BaseFault field base fault
  | malformedRange (hhyphen : '-' ∈ base) (hends : ∀ start stop, ¬ IsRange base start stop) :
    BaseFault field base (.malformedRange (String.ofList base))
  | start {start stop : List Char} {fault : FieldFault} (hrange : IsRange base start stop)
    (hstart : field.ValueFault start fault) : BaseFault field base fault
  | stop {start stop : List Char} {first : Nat} {fault : FieldFault}
    (hrange : IsRange base start stop) (hstart : field.DenotesValue start first)
    (hstop : field.ValueFault stop fault) : BaseFault field base fault
  | invertedRange {start stop : List Char} {first last : Nat} (hrange : IsRange base start stop)
    (hstart : field.DenotesValue start first) (hstop : field.DenotesValue stop last)
    (hlt : last < first) :
    BaseFault field base (.invertedRange (String.ofList base) first last)

/-- What is wrong with an item.  The fault of a step comes before that of the base. -/
inductive ItemFault (field : Field) (item : List Char) : FieldFault → Prop where
  | plain {fault : FieldFault} (hslash : '/' ∉ item) (hbase : field.BaseFault item fault) :
    ItemFault field item fault
  | malformedStep {base step : List Char} (hitem : item = base ++ '/' :: step)
    (hslash : '/' ∉ base)
    (hfault : base = [] ∨ ¬ (isDigits step = true ∧ decimal step < literalLimit)) :
    ItemFault field item (.malformedStep (String.ofList item))
  | nonPositiveStep {base step : List Char} (hitem : item = base ++ '/' :: step)
    (hslash : '/' ∉ base) (hne : base ≠ []) (hdigits : isDigits step = true)
    (hzero : decimal step = 0) :
    ItemFault field item (.nonPositiveStep (String.ofList item))
  | stepped {base step : List Char} {fault : FieldFault} (hitem : item = base ++ '/' :: step)
    (hslash : '/' ∉ base) (hne : base ≠ []) (hdigits : isDigits step = true)
    (hpos : 0 < decimal step) (hlimit : decimal step < literalLimit)
    (hbase : field.BaseFault base fault) : ItemFault field item fault

/-! ### Faults of whole texts -/

/-- A character that fields are written with: an ASCII digit or letter, or one of four
    signs. -/
def IsLegal (c : Char) : Prop :=
  ('0' ≤ c ∧ c ≤ '9') ∨ ('A' ≤ c ∧ c ≤ 'Z') ∨ ('a' ≤ c ∧ c ≤ 'z') ∨ c ∈ ['*', '/', ',', '-']

/-- What is wrong with the text of a field. -/
inductive TextFault (field : Field) (text : List Char) : FieldFault → Prop where
  | illegalCharacter {before after : List Char} {c : Char} (htext : text = before ++ c :: after)
    (hbefore : ∀ d ∈ before, IsLegal d) (hc : ¬ IsLegal c) :
    TextFault field text (.illegalCharacter (String.ofList text) c)
  | malformedList (hlegal : ∀ c ∈ text, IsLegal c) (hcomma : HasStray ',' text) :
    TextFault field text (.malformedList (String.ofList text))
  | item {before after : List (List Char)} {item : List Char} {fault : FieldFault}
    (hlegal : ∀ c ∈ text, IsLegal c) (hcomma : ¬ HasStray ',' text)
    (hitems : text.splitOn ',' = before ++ item :: after)
    (hbefore : ∀ earlier ∈ before, ∃ stride, field.DenotesStride earlier stride)
    (hitem : field.ItemFault item fault) : TextFault field text fault

variable {field : Field} {token base item text : List Char} {fault : FieldFault}

/-! ### Values -/

theorem valueOfName?_eq_none_iff :
    field.valueOfName? token = none ↔
      ∀ entry ∈ field.names, entry.1.toList ≠ token.map Char.toLower := by
  rw [valueOfName?, Option.map_eq_none_iff, List.find?_eq_none]
  simp

theorem checkValue_eq_error_iff :
    field.checkValue token = .error fault ↔ field.ValueFault token fault := by
  constructor
  · intro h
    by_cases hdigits : isDigits token = true
    · rw [checkValue_of_isDigits hdigits] at h
      split at h
      case isTrue => cases h
      case isFalse hbounds =>
        cases h
        exact ValueFault.outOfRange hdigits (by simpa using hbounds)
    · rw [Bool.not_eq_true] at hdigits
      unfold checkValue at h
      split at h
      case h_1 => cases h
      case h_2 hname =>
        rw [hdigits] at h
        cases h
        exact ValueFault.unknownName (valueOfName?_eq_none_iff.mp hname) hdigits
  · intro h
    cases h with
    | unknownName hname hdigits =>
      simp [checkValue, valueOfName?_eq_none_iff.mpr hname, hdigits]
    | outOfRange hdigits hbounds =>
      rw [checkValue_of_isDigits hdigits, if_neg (Bool.eq_false_iff.mp hbounds)]

/-! ### Bases -/

theorem isRange_iff {start stop : List Char} :
    IsRange base start stop ↔ base.splitOn '-' = [start, stop] ∧ start ≠ [] ∧ stop ≠ [] := by
  rw [splitOn_eq_pair_iff]
  constructor
  · intro h
    exact ⟨⟨h.base_eq, h.start_notMem, h.stop_notMem⟩, h.start_ne_nil, h.stop_ne_nil⟩
  · rintro ⟨⟨hbase, hstart, hstop⟩, hstartNe, hstopNe⟩
    exact ⟨hbase, hstartNe, hstopNe, hstart, hstop⟩

/-- Two values are not read in order when one of them is not read, the first one being
    tried first, or when the second is smaller. -/
theorem ordered_eq_error_iff {ε α : Type} {read : List Char → Except ε Nat}
    {fault : Nat → Nat → ε} {ends : Nat → Nat → α} {start stop : List Char} {error : ε} :
    (do let first ← read start
        let last ← read stop
        if last < first then .error (fault first last) else .ok (ends first last)) =
        .error error ↔
      read start = .error error ∨ ∃ first, read start = .ok first ∧
        (read stop = .error error ∨
          ∃ last, read stop = .ok last ∧ last < first ∧ fault first last = error) := by
  simp only [bind_eq_error_iff, ite_error_eq_error_iff, reduceCtorEq, and_false, or_false]

/-- The range that a base is when nothing is wrong with its hyphens. -/
theorem checkBase_of_isRange {start stop : List Char} (h : IsRange base start stop) :
    field.checkBase base = (do
      let first ← field.checkValue start
      let last ← field.checkValue stop
      if last < first then .error (.invertedRange (String.ofList base) first last)
      else .ok ()) := by
  obtain ⟨hsplit, hstart, hstop⟩ := isRange_iff.mp h
  have hstar : base ≠ ['*'] := by
    rw [h.base_eq]
    exact append_hyphen_ne_star start stop
  have hne : ¬ (start.isEmpty || stop.isEmpty) = true := by
    simp [hstart, hstop]
  rw [checkBase, if_neg hstar, hsplit]
  exact if_neg hne

theorem baseFault_of_checkBase (h : field.checkBase base = .error fault) :
    field.BaseFault base fault := by
  by_cases hrange : ∃ start stop, IsRange base start stop
  · obtain ⟨start, stop, hrange⟩ := hrange
    rw [checkBase_of_isRange hrange] at h
    rcases ordered_eq_error_iff.mp h with hstart | ⟨first, hstart, hstop | ⟨last, hstop, hlt, rfl⟩⟩
    · exact BaseFault.start hrange (checkValue_eq_error_iff.mp hstart)
    · rw [checkValue_eq_ok_iff] at hstart
      exact BaseFault.stop hrange hstart (checkValue_eq_error_iff.mp hstop)
    · rw [checkValue_eq_ok_iff] at hstart hstop
      exact BaseFault.invertedRange hrange hstart hstop hlt
  · -- no range: then there is no hyphen, or the hyphens are at fault
    have hends : ∀ start stop, ¬ IsRange base start stop :=
      fun start stop h => hrange ⟨start, stop, h⟩
    unfold checkBase at h
    split at h
    case isTrue => cases h
    case isFalse hstar =>
      split at h
      case h_1 hsplit =>
        obtain ⟨rfl, hhyphen⟩ := splitOn_eq_singleton_iff.mp hsplit
        rw [map_eq_error_iff] at h
        exact BaseFault.value hstar hhyphen (checkValue_eq_error_iff.mp h)
      case h_2 start stop hsplit =>
        rcases ite_error_eq_error_iff.mp h with ⟨_, rfl⟩ | ⟨hne, _⟩
        · obtain ⟨rfl, _⟩ := splitOn_eq_pair_iff.mp hsplit
          exact BaseFault.malformedRange (by simp) hends
        · simp only [Bool.or_eq_true, List.isEmpty_iff, not_or] at hne
          exact absurd (isRange_iff.mpr ⟨hsplit, hne⟩) (hends start stop)
      case h_3 hsingle hpair =>
        cases h
        refine BaseFault.malformedRange ?_ hends
        by_cases hhyphen : '-' ∈ base
        · exact hhyphen
        · exact absurd (List.splitOn_eq_singleton hhyphen) (hsingle base)

theorem checkBase_of_baseFault (h : field.BaseFault base fault) :
    field.checkBase base = .error fault := by
  cases h with
  | value hstar hhyphen hvalue =>
    rw [checkBase, if_neg hstar, List.splitOn_eq_singleton hhyphen]
    exact map_eq_error_iff.mpr (checkValue_eq_error_iff.mpr hvalue)
  | malformedRange hhyphen hends =>
    have hstar : base ≠ ['*'] := by
      rintro rfl
      simp at hhyphen
    rw [checkBase, if_neg hstar]
    split
    case h_1 hsplit =>
      obtain ⟨rfl, hnot⟩ := splitOn_eq_singleton_iff.mp hsplit
      exact absurd hhyphen hnot
    case h_2 start stop hsplit =>
      refine ite_error_eq_error_iff.mpr (Or.inl ⟨?_, rfl⟩)
      by_cases hempty : (start.isEmpty || stop.isEmpty) = true
      · exact hempty
      · simp only [Bool.or_eq_true, List.isEmpty_iff, not_or] at hempty
        exact absurd (isRange_iff.mpr ⟨hsplit, hempty⟩) (hends start stop)
    case h_3 => rfl
  | start hrange hstart =>
    rw [checkBase_of_isRange hrange]
    exact ordered_eq_error_iff.mpr (Or.inl (checkValue_eq_error_iff.mpr hstart))
  | stop hrange hstart hstop =>
    rw [checkBase_of_isRange hrange]
    rw [← checkValue_eq_ok_iff] at hstart
    rw [← checkValue_eq_error_iff] at hstop
    exact ordered_eq_error_iff.mpr (Or.inr ⟨_, hstart, Or.inl hstop⟩)
  | invertedRange hrange hstart hstop hlt =>
    rw [checkBase_of_isRange hrange]
    rw [← checkValue_eq_ok_iff] at hstart hstop
    exact ordered_eq_error_iff.mpr (Or.inr ⟨_, hstart, Or.inr ⟨_, hstop, hlt, rfl⟩⟩)

theorem checkBase_eq_error_iff :
    field.checkBase base = .error fault ↔ field.BaseFault base fault :=
  ⟨baseFault_of_checkBase, checkBase_of_baseFault⟩

/-! ### Items -/

theorem itemFault_of_checkItem (h : field.checkItem item = .error fault) :
    field.ItemFault item fault := by
  unfold checkItem at h
  split at h
  case h_1 hcut =>
    exact ItemFault.plain (cutAt?_eq_none_iff.mp hcut) (checkBase_eq_error_iff.mp h)
  case h_2 base step hcut =>
    obtain ⟨hitem, hslash⟩ := cutAt?_eq_some_iff.mp hcut
    split at h
    case h_1 count hempty hliteral =>
      obtain ⟨hdigits, hlimit, hvalue⟩ := literal?_eq_some_iff.mp hliteral
      have hne : base ≠ [] := by simpa using hempty
      have hpos : 0 < decimal step := by omega
      exact ItemFault.stepped hitem hslash hne hdigits hpos hlimit (checkBase_eq_error_iff.mp h)
    case h_2 hempty hliteral =>
      cases h
      obtain ⟨hdigits, _, hzero⟩ := literal?_eq_some_iff.mp hliteral
      exact ItemFault.nonPositiveStep hitem hslash (by simpa using hempty) hdigits hzero
    case h_3 hpositive hzero =>
      -- neither of the two good steps, so the base is empty or the step no literal
      cases h
      refine ItemFault.malformedStep hitem hslash ?_
      by_cases hempty : base = []
      · exact Or.inl hempty
      · right
        rintro ⟨hdigits, hlimit⟩
        have hisEmpty : base.isEmpty = false := by simpa using hempty
        cases hvalue : decimal step with
        | zero =>
          exact hzero hisEmpty (literal?_eq_some_iff.mpr ⟨hdigits, hlimit, hvalue⟩)
        | succ count =>
          exact hpositive count hisEmpty (literal?_eq_some_iff.mpr ⟨hdigits, hlimit, hvalue⟩)

theorem checkItem_of_itemFault (h : field.ItemFault item fault) :
    field.checkItem item = .error fault := by
  cases h with
  | plain hslash hbase =>
    rw [checkItem, cutAt?_eq_none_iff.mpr hslash]
    exact checkBase_eq_error_iff.mpr hbase
  | @malformedStep base step hitem hslash hfault =>
    rw [checkItem, cutAt?_eq_some_iff.mpr ⟨hitem, hslash⟩]
    rcases hfault with rfl | hstep
    · rfl
    · have hliteral : literal? step = none := by
        cases hvalue : literal? step with
        | none => rfl
        | some value =>
          obtain ⟨hdigits, hlimit, _⟩ := literal?_eq_some_iff.mp hvalue
          exact absurd ⟨hdigits, hlimit⟩ hstep
      simp only [hliteral]
      cases base.isEmpty with
      | true => rfl
      | false => rfl
  | @nonPositiveStep base step hitem hslash hne hdigits hzero =>
    have hlimit : decimal step < literalLimit := by
      rw [hzero]
      decide
    have hliteral := literal?_eq_some_iff.mpr ⟨hdigits, hlimit, hzero⟩
    have hempty : base.isEmpty = false := by simpa using hne
    rw [checkItem, cutAt?_eq_some_iff.mpr ⟨hitem, hslash⟩]
    simp only [hempty, hliteral]
  | @stepped base step _ hitem hslash hne hdigits hpos hlimit hbase =>
    obtain ⟨count, hcount⟩ := Nat.exists_eq_succ_of_ne_zero (Nat.ne_of_gt hpos)
    have hliteral := literal?_eq_some_iff.mpr ⟨hdigits, hlimit, hcount⟩
    have hempty : base.isEmpty = false := by simpa using hne
    rw [checkItem, cutAt?_eq_some_iff.mpr ⟨hitem, hslash⟩]
    simp only [hempty, hliteral]
    exact checkBase_eq_error_iff.mpr hbase

theorem checkItem_eq_error_iff :
    field.checkItem item = .error fault ↔ field.ItemFault item fault :=
  ⟨itemFault_of_checkItem, checkItem_of_itemFault⟩

/-! ### Whole texts -/

theorem admitsChar_iff {c : Char} : admitsChar c = true ↔ IsLegal c := by
  have hsigns : "*/,-".toList = ['*', '/', ',', '-'] := by decide
  rw [admitsChar, Bool.or_eq_true, isAlphanum_iff, hsigns, List.contains_iff_mem, or_assoc,
    or_assoc]
  rfl

theorem find?_illegal_eq_none_iff :
    (text.find? fun c => !admitsChar c) = none ↔ ∀ c ∈ text, IsLegal c := by
  rw [List.find?_eq_none]
  simp [admitsChar_iff]

/-- The first illegal character is the one that only legal ones come before. -/
theorem find?_illegal_eq_some_iff {c : Char} :
    (text.find? fun c => !admitsChar c) = some c ↔
      ∃ before after, text = before ++ c :: after ∧ (∀ d ∈ before, IsLegal d) ∧ ¬ IsLegal c := by
  rw [List.find?_eq_some_iff_append]
  simp only [Bool.not_eq_true', Bool.not_not, ← admitsChar_iff, Bool.not_eq_true]
  constructor
  · rintro ⟨hc, before, after, htext, hbefore⟩
    exact ⟨before, after, htext, hbefore, hc⟩
  · rintro ⟨before, after, htext, hbefore, hc⟩
    exact ⟨hc, before, after, htext, hbefore⟩

/-- The items of a text fail with the fault of the first one that is faulty. -/
theorem forM_checkItem_eq_error_iff {items : List (List Char)} :
    items.forM field.checkItem = .error fault ↔
      ∃ before item after, items = before ++ item :: after ∧
        (∀ earlier ∈ before, ∃ stride, field.DenotesStride earlier stride) ∧
        field.ItemFault item fault := by
  rw [forM_eq_error_iff]
  simp only [checkItem_eq_ok_iff, checkItem_eq_error_iff]

theorem check_eq_error_iff (hne : text ≠ []) :
    field.check text = .error fault ↔ field.TextFault text fault := by
  have hempty : ¬ text.isEmpty = true := by simpa using hne
  constructor
  · intro h
    rw [check, if_neg hempty] at h
    split at h
    case h_1 c hfind =>
      cases h
      obtain ⟨before, after, htext, hbefore, hc⟩ := find?_illegal_eq_some_iff.mp hfind
      exact TextFault.illegalCharacter htext hbefore hc
    case h_2 hfind =>
      rw [find?_illegal_eq_none_iff] at hfind
      rcases ite_error_eq_error_iff.mp h with ⟨hcomma, rfl⟩ | ⟨hcomma, h⟩
      · exact TextFault.malformedList hfind (hasStray_iff.mp hcomma)
      · rw [hasStray_iff] at hcomma
        rw [field.forM_checkListed hne hcomma] at h
        obtain ⟨before, item, after, hitems, hbefore, hitem⟩ := forM_checkItem_eq_error_iff.mp h
        exact TextFault.item hfind hcomma hitems hbefore hitem
  · intro h
    rw [check, if_neg hempty]
    cases h with
    | illegalCharacter htext hbefore hc =>
      rw [find?_illegal_eq_some_iff.mpr ⟨_, _, htext, hbefore, hc⟩]
    | malformedList hlegal hcomma =>
      rw [find?_illegal_eq_none_iff.mpr hlegal]
      exact if_pos (hasStray_iff.mpr hcomma)
    | item hlegal hcomma hitems hbefore hitem =>
      rw [find?_illegal_eq_none_iff.mpr hlegal]
      refine ite_error_eq_error_iff.mpr (Or.inr ⟨mt hasStray_iff.mp hcomma, ?_⟩)
      rw [field.forM_checkListed hne hcomma]
      exact forM_checkItem_eq_error_iff.mpr ⟨_, _, _, hitems, hbefore, hitem⟩

end Field

/-! ### Tokens -/

/-- The piece of text that a fault names. -/
def FieldFault.token? : FieldFault → Option String
  | .empty => none
  | .illegalCharacter token _ | .malformedList token | .malformedStep token
  | .nonPositiveStep token | .malformedRange token | .invertedRange token _ _
  | .unknownName token | .outOfRange token _ => some token

/-- A fault names a piece of a text. -/
def FieldFault.PointsInto (fault : FieldFault) (text : List Char) : Prop :=
  ∃ token, fault.token? = some token ∧ token.toList <:+: text

namespace Field

variable {field : Field} {token base item text : List Char} {fault : FieldFault}

theorem pointsInto_of_eq (h : fault.token? = some (String.ofList text)) :
    fault.PointsInto text := by
  refine ⟨_, h, ?_⟩
  simpa only [String.toList_ofList] using List.infix_refl text

theorem pointsInto_of_infix {piece : List Char} (h : fault.PointsInto piece)
    (hpiece : piece <:+: text) : fault.PointsInto text := by
  obtain ⟨token, htoken, hinfix⟩ := h
  exact ⟨token, htoken, hinfix.trans hpiece⟩

theorem ValueFault.pointsInto (h : field.ValueFault token fault) : fault.PointsInto token := by
  cases h with
  | unknownName => exact pointsInto_of_eq rfl
  | outOfRange => exact pointsInto_of_eq rfl

theorem BaseFault.pointsInto (h : field.BaseFault base fault) : fault.PointsInto base := by
  cases h with
  | value _ _ hvalue => exact hvalue.pointsInto
  | malformedRange => exact pointsInto_of_eq rfl
  | start hrange hstart =>
    apply pointsInto_of_infix hstart.pointsInto
    rw [hrange.base_eq]
    exact (List.prefix_append _ _).isInfix
  | @stop start stop _ _ hrange _ hstop =>
    apply pointsInto_of_infix hstop.pointsInto
    rw [hrange.base_eq]
    exact ((List.suffix_cons _ _).trans (List.suffix_append _ _)).isInfix
  | invertedRange => exact pointsInto_of_eq rfl

theorem ItemFault.pointsInto (h : field.ItemFault item fault) : fault.PointsInto item := by
  cases h with
  | plain _ hbase => exact hbase.pointsInto
  | malformedStep => exact pointsInto_of_eq rfl
  | nonPositiveStep => exact pointsInto_of_eq rfl
  | stepped hitem _ _ _ _ _ hbase =>
    apply pointsInto_of_infix hbase.pointsInto
    rw [hitem]
    exact (List.prefix_append _ _).isInfix

theorem TextFault.pointsInto (h : field.TextFault text fault) : fault.PointsInto text := by
  cases h with
  | illegalCharacter => exact pointsInto_of_eq rfl
  | malformedList => exact pointsInto_of_eq rfl
  | @item before after faulty _ _ _ hitems _ hitem =>
    apply pointsInto_of_infix hitem.pointsInto
    have hmem : faulty ∈ text.splitOn ',' := by simp [hitems]
    exact infix_of_mem_splitOn hmem

/-! ### The first field at fault -/

theorem pairwise_position : all.Pairwise fun first later => first.position < later.position := by
  decide

/-- What stands before a field in an expression are the fields of smaller positions. -/
theorem mem_before_iff {before after : List Field} (h : all = before ++ field :: after)
    (earlier : Field) : earlier ∈ before ↔ earlier.position < field.position := by
  -- the fields stand in the order of their positions, so each side of the field is known
  have hpairs := pairwise_position
  rw [h, List.pairwise_append, List.pairwise_cons] at hpairs
  obtain ⟨_, ⟨hafter, _⟩, hbefore⟩ := hpairs
  constructor
  · intro hmem
    exact hbefore earlier hmem field List.mem_cons_self
  · intro hlt
    have hmem := mem_all earlier
    rw [h, List.mem_append, List.mem_cons] at hmem
    rcases hmem with hmem | rfl | hmem
    · exact hmem
    · exact absurd hlt (Nat.lt_irrefl _)
    · exact absurd hlt (Nat.lt_asymm (hafter earlier hmem))

end Field

/-! ### Expressions -/

variable {text : String} {texts : FieldTexts} {error : GrammarError}

namespace FieldTexts

theorem check_eq_error_iff :
    texts.check = .error error ↔
      ∃ field fault, error = .inField field fault ∧
        (∀ earlier : Field, earlier.position < field.position →
          earlier.check (texts.get earlier) = .ok ()) ∧
        field.check (texts.get field) = .error fault := by
  rw [check, forM_eq_error_iff]
  simp only [mapError_eq_ok_iff, mapError_eq_error_iff]
  constructor
  · rintro ⟨before, field, after, hall, hbefore, fault, hfault, rfl⟩
    refine ⟨field, fault, rfl, ?_, hfault⟩
    intro earlier hlt
    exact hbefore earlier ((Field.mem_before_iff hall earlier).mpr hlt)
  · rintro ⟨field, fault, rfl, hearlier, hfault⟩
    obtain ⟨before, after, hall⟩ := List.append_of_mem (Field.mem_all field)
    refine ⟨before, field, after, hall, ?_, fault, hfault, rfl⟩
    intro earlier hmem
    exact hearlier earlier ((Field.mem_before_iff hall earlier).mp hmem)

theorem ofWords_eq_error_iff {found : List (List Char)} :
    ofWords found = .error error ↔ found.length ≠ 6 ∧ error = .fieldCount found.length := by
  unfold ofWords
  split
  case h_1 => simp
  case h_2 hcount =>
    have hsix : found.length ≠ 6 := by
      intro h
      obtain ⟨texts, htexts⟩ := exists_eq_toList h
      exact hcount _ _ _ _ _ _ htexts
    simp [hsix, eq_comm]

theorem ofExpression_eq_error_iff :
    ofExpression text = .error error ↔
      words text.toList = [] ∧ error = .emptyExpression ∨
        ∃ found, error = .fieldCount found ∧ (words text.toList).length = found ∧
          found ≠ 0 ∧ found ≠ 6 := by
  rw [ofExpression_eq, ite_error_eq_error_iff, ofWords_eq_error_iff]
  constructor
  · rintro (⟨hnil, rfl⟩ | ⟨hne, hsix, rfl⟩)
    · exact Or.inl ⟨hnil, rfl⟩
    · exact Or.inr ⟨_, rfl, rfl, mt List.length_eq_zero_iff.mp hne, hsix⟩
  · rintro (⟨hnil, rfl⟩ | ⟨_, rfl, rfl, hzero, hsix⟩)
    · exact Or.inl ⟨hnil, rfl⟩
    · exact Or.inr ⟨mt List.length_eq_zero_iff.mpr hzero, hsix, rfl⟩

/-- The six words of an expression are not empty. -/
theorem get_ne_nil (h : ofExpression text = .ok texts) (field : Field) :
    texts.get field ≠ [] := by
  have hmem : texts.get field ∈ words text.toList := by
    rw [ofExpression_eq_ok_iff.mp h]
    exact List.mem_map_of_mem (Field.mem_all field)
  exact ne_nil_of_mem_words hmem

end FieldTexts

/-- A word that has a fault is no list of items. -/
theorem FieldTexts.not_isList_of_textFault {field : Field} {fault : FieldFault}
    (htexts : ofExpression text = .ok texts) (h : field.TextFault (texts.get field) fault) :
    ¬ field.IsList (texts.get field) := by
  rw [← Field.check_eq_error_iff (get_ne_nil htexts field)] at h
  rw [← Field.check_eq_ok_iff_isList, h]
  intro hok
  cases hok

/-- An error that names no field is one of the number of words. -/
theorem checkExpression_eq_error_iff_ofExpression
    (herror : ∀ field fault, error ≠ .inField field fault) :
    checkExpression text = .error error ↔ FieldTexts.ofExpression text = .error error := by
  rw [checkExpression, bind_eq_error_iff]
  refine or_iff_left ?_
  rintro ⟨texts, _, h⟩
  obtain ⟨field, fault, hfield, _⟩ := FieldTexts.check_eq_error_iff.mp h
  exact herror field fault hfield

theorem checkExpression_eq_inField_iff {field : Field} {fault : FieldFault} :
    checkExpression text = .error (.inField field fault) ↔
      ∃ texts, FieldTexts.ofExpression text = .ok texts ∧
        (∀ earlier : Field, earlier.position < field.position →
          earlier.IsList (texts.get earlier)) ∧
        field.TextFault (texts.get field) fault := by
  rw [checkExpression, bind_eq_error_iff, FieldTexts.ofExpression_eq_error_iff]
  simp only [FieldTexts.check_eq_error_iff, Field.check_eq_ok_iff_isList]
  constructor
  · rintro ((⟨_, h⟩ | ⟨_, h, _⟩) | ⟨texts, htexts, field, fault, h, hearlier, hfault⟩)
    · cases h
    · cases h
    · cases h
      have hne := FieldTexts.get_ne_nil htexts field
      exact ⟨texts, htexts, hearlier, (Field.check_eq_error_iff hne).mp hfault⟩
  · rintro ⟨texts, htexts, hearlier, hfault⟩
    have hne := FieldTexts.get_ne_nil htexts field
    rw [← Field.check_eq_error_iff hne] at hfault
    exact Or.inr ⟨texts, htexts, field, fault, rfl, hearlier, hfault⟩

/-- **Faults.**  The check rejects an expression as empty when it holds nothing but blanks,
    and by its number of words when these are neither none nor six.  In all other cases it
    rejects it in the first field whose text is not a list of items, with a fault that this
    text has and that names a piece of it. -/
theorem checkExpression_eq_error_iff (text : String) (error : GrammarError) :
    checkExpression text = .error error ↔
      match error with
      | .emptyExpression => ∀ c ∈ text.toList, isBlank c = true
      | .fieldCount found =>
        (∃ tokens, WrittenAs text.toList tokens ∧ tokens.length = found) ∧ found ≠ 0 ∧ found ≠ 6
      | .inField field fault =>
        ∃ texts : FieldTexts, WrittenAs text.toList texts.toList ∧
          (∀ earlier : Field, earlier.position < field.position →
            earlier.IsList (texts.get earlier)) ∧
          ¬ field.IsList (texts.get field) ∧ field.TextFault (texts.get field) fault ∧
          fault.PointsInto (texts.get field) := by
  cases error with
  | emptyExpression =>
    rw [checkExpression_eq_error_iff_ofExpression (by simp), FieldTexts.ofExpression_eq_error_iff]
    simp [words_eq_iff, writtenAs_nil_iff]
  | fieldCount found =>
    rw [checkExpression_eq_error_iff_ofExpression (by simp), FieldTexts.ofExpression_eq_error_iff]
    constructor
    · rintro (⟨_, h⟩ | ⟨count, h, hlength, hcount⟩)
      · cases h
      · cases h
        exact ⟨⟨_, words_eq_iff.mp rfl, hlength⟩, hcount⟩
    · rintro ⟨⟨tokens, htokens, hlength⟩, hcount⟩
      rw [← words_eq_iff.mpr htokens] at hlength
      exact Or.inr ⟨found, rfl, hlength, hcount⟩
  | inField field fault =>
    rw [checkExpression_eq_inField_iff]
    constructor
    · rintro ⟨texts, htexts, hearlier, hfault⟩
      refine ⟨texts, ?_, hearlier, ?_, hfault, hfault.pointsInto⟩
      · exact words_eq_iff.mp (FieldTexts.ofExpression_eq_ok_iff.mp htexts)
      · exact FieldTexts.not_isList_of_textFault htexts hfault
    · rintro ⟨texts, hwords, hearlier, _, hfault, _⟩
      rw [← words_eq_iff, ← FieldTexts.ofExpression_eq_ok_iff] at hwords
      exact ⟨texts, hwords, hearlier, hfault⟩

end Cron
