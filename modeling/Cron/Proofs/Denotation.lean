/-
  Cron/Proofs/Denotation.lean
  ===========================
  **What the tokens of a field denote, and that both readers know it.**

  The grammar check and the expansion take a field apart in different ways: the one
  splits a range at every hyphen and the other at the first, the one asks first whether a
  token is a numeral and the other whether it has a value, and only the one asks whether
  anything stands before a slash or beside a hyphen.  The relations below say what a value, a base
  and an item denote without saying how they are read.  The expansion reads an item as a
  stride exactly when the item denotes it (`readItem_eq_ok_iff`), and the check accepts an
  item exactly when it denotes some stride (`checkItem_eq_ok_iff`).
-/
import Cron.Expansion
import Cron.Proofs.Shape
import Cron.Success

namespace Cron

open Cron.Text

namespace Field

/-! ### Denotations -/

/-- A token denotes a value: it is one of the names, in any case, or a numeral within
    the bounds. -/
inductive DenotesValue (field : Field) : List Char → Nat → Prop where
  | name {token : List Char} {name : String} {value : Nat} (hmem : (name, value) ∈ field.names)
    (hname : name.toList = token.map Char.toLower) : DenotesValue field token value
  | numeral {token : List Char} (hdigits : isDigits token = true)
    (hbounds : field.bounds.contains (decimal token) = true) :
    DenotesValue field token (decimal token)

/-- A base denotes a first and a last value.  A single value is open when a step follows
    it, and its last value is then the largest of the field. -/
inductive DenotesEnds (field : Field) (isOpen : Bool) : List Char → Nat → Nat → Prop where
  | star : DenotesEnds field isOpen ['*'] field.bounds.min field.bounds.max
  | single {token : List Char} {value : Nat} (hvalue : field.DenotesValue token value) :
    DenotesEnds field isOpen token value (if isOpen then field.bounds.max else value)
  | range {start stop : List Char} {first last : Nat} (hfirst : field.DenotesValue start first)
    (hlast : field.DenotesValue stop last) (hle : first ≤ last) :
    DenotesEnds field isOpen (start ++ '-' :: stop) first last

inductive DenotesStride (field : Field) : List Char → Stride → Prop where
  | plain {base : List Char} {first last : Nat} (hends : field.DenotesEnds false base first last) :
    DenotesStride field base ⟨first, last, 1⟩
  | stepped {base step : List Char} {first last : Nat}
    (hends : field.DenotesEnds true base first last) (hdigits : isDigits step = true)
    (hpos : 0 < decimal step) (hlimit : decimal step < literalLimit) :
    DenotesStride field (base ++ '/' :: step) ⟨first, last, decimal step⟩

variable {field : Field} {token base item : List Char} {value first last : Nat} {stride : Stride}

/-! ### Bounds, names and numerals -/

theorem contains_min (field : Field) : field.bounds.contains field.bounds.min = true := by
  cases field <;> decide

theorem contains_max (field : Field) : field.bounds.contains field.bounds.max = true := by
  cases field <;> decide

theorem le_max {value : Nat} (h : field.bounds.contains value = true) :
    value ≤ field.bounds.max := by
  simp only [Bounds.contains, Bool.and_eq_true, decide_eq_true_eq] at h
  exact h.2

theorem all_isAlpha_of_mem_names (field : Field) : ∀ entry ∈ field.names,
    entry.1.toList ≠ [] ∧ (entry.1.toList.all fun c => c.isAlpha && !c.isDigit) = true := by
  cases field <;> decide

theorem isAlpha_of_mem_names {entry : String × Nat} (h : entry ∈ field.names) :
    entry.1.toList ≠ [] ∧ ∀ c ∈ entry.1.toList, c.isAlpha = true ∧ c.isDigit = false := by
  simpa using field.all_isAlpha_of_mem_names entry h

theorem eq_of_mem_names (field : Field) :
    ∀ entry ∈ field.names, ∀ other ∈ field.names, entry.1 = other.1 → entry = other := by
  cases field <;> decide

/-- A token has the value of the one name that it spells. -/
theorem valueOfName?_eq_some_iff :
    field.valueOfName? token = some value ↔
      ∃ name, (name, value) ∈ field.names ∧ name.toList = token.map Char.toLower := by
  rw [valueOfName?, Option.map_eq_some_iff]
  constructor
  · rintro ⟨⟨name, _⟩, hfind, rfl⟩
    have hspells := List.find?_some hfind
    exact ⟨name, List.mem_of_find?_eq_some hfind, eq_of_beq hspells⟩
  · rintro ⟨name, hmem, hname⟩
    cases hfind : field.names.find? fun entry => entry.1.toList == token.map Char.toLower with
    | none =>
      have hnot := List.find?_eq_none.mp hfind (name, value) hmem
      exact absurd (beq_iff_eq.mpr hname) hnot
    | some entry =>
      have hspells := List.find?_some hfind
      have hsame : entry = (name, value) :=
        field.eq_of_mem_names entry (List.mem_of_find?_eq_some hfind) _ hmem
          (String.toList_injective ((eq_of_beq hspells).trans hname.symm))
      exact ⟨entry, rfl, congrArg Prod.snd hsame⟩

theorem valueOfName?_of_isDigits (h : isDigits token = true) : field.valueOfName? token = none := by
  cases hvalue : field.valueOfName? token with
  | none => rfl
  | some value =>
    obtain ⟨name, hmem, hname⟩ := valueOfName?_eq_some_iff.mp hvalue
    obtain ⟨hne, hletters⟩ := isAlpha_of_mem_names hmem
    obtain ⟨c, hc⟩ := List.exists_mem_of_ne_nil _ hne
    have hletter := (hletters c hc).2
    rw [hname] at hc
    obtain ⟨digit, hin, rfl⟩ := List.mem_map.mp hc
    have hdigit := isDigit_of_isDigits h digit hin
    rw [toLower_of_isDigit hdigit, hdigit] at hletter
    cases hletter

/-- A numeral within the bounds is short enough for a literal. -/
theorem literal?_of_contains (h : isDigits token = true)
    (hbounds : field.bounds.contains (decimal token) = true) :
    literal? token = some (decimal token) := by
  have hmax : field.bounds.max < literalLimit := by cases field <;> decide
  have hle := le_max hbounds
  simp [literal?, h, Nat.lt_of_le_of_lt hle hmax]

theorem literal?_eq_some_iff {text : List Char} :
    literal? text = some value ↔
      isDigits text = true ∧ decimal text < literalLimit ∧ decimal text = value := by
  simp [literal?, and_assoc]

/-! ### Shapes -/

theorem DenotesValue.shape (h : field.DenotesValue token value) : WordShape token := by
  cases h with
  | name hmem hname =>
    obtain ⟨hne, hletters⟩ := isAlpha_of_mem_names hmem
    rw [hname] at hne hletters
    refine ⟨by simpa using hne, ?_⟩
    intro c hc
    have halpha := (hletters _ (List.mem_map_of_mem hc)).1
    exact isAlphanum_of_toLower (by rw [Char.isAlphanum, halpha, Bool.true_or])
  | numeral hdigits hbounds =>
    refine ⟨?_, isAlphanum_of_isDigits hdigits⟩
    rintro rfl
    cases hdigits

theorem DenotesEnds.shape {isOpen : Bool} (h : field.DenotesEnds isOpen base first last) :
    BaseShape base := by
  cases h with
  | star => exact BaseShape.star
  | single hvalue => exact BaseShape.word hvalue.shape
  | range hfirst hlast _ => exact BaseShape.range hfirst.shape hlast.shape

theorem DenotesStride.shape (h : field.DenotesStride item stride) : ItemShape item := by
  cases h with
  | plain hends => exact ItemShape.plain hends.shape
  | stepped hends hdigits hpos hlimit => exact ItemShape.stepped hends.shape hdigits hpos hlimit

/-! ### Reading values -/

/-- The check judges a numeral by what it stands for, even where this is too large for a
    literal. -/
theorem checkValue_of_isDigits (h : isDigits token = true) :
    field.checkValue token =
      if field.bounds.contains (decimal token) = true then .ok (decimal token)
      else .error (.outOfRange (String.ofList token) field.bounds) := by
  rw [checkValue, value?, valueOfName?_of_isDigits h, Option.none_or]
  by_cases hbounds : field.bounds.contains (decimal token) = true
  · simp [h, hbounds, literal?_of_contains h hbounds, Option.filter_some]
  · by_cases hlimit : decimal token < literalLimit
    · simp [h, hbounds, literal?, hlimit, Option.filter_some]
    · simp [h, hbounds, literal?, hlimit]

theorem checkValue_eq_ok_iff :
    field.checkValue token = .ok value ↔ field.DenotesValue token value := by
  constructor
  · intro h
    by_cases hdigits : isDigits token = true
    · rw [checkValue_of_isDigits hdigits] at h
      split at h
      case isTrue hbounds =>
        cases h
        exact DenotesValue.numeral hdigits hbounds
      case isFalse => cases h
    · unfold checkValue at h
      split at h
      case h_1 named hnamed =>
        cases h
        obtain ⟨name, hmem, hname⟩ := valueOfName?_eq_some_iff.mp hnamed
        exact DenotesValue.name hmem hname
      case h_2 => simp [hdigits] at h
  · intro h
    cases h with
    | name hmem hname =>
      rw [checkValue, valueOfName?_eq_some_iff.mpr ⟨_, hmem, hname⟩]
    | numeral hdigits hbounds => rw [checkValue_of_isDigits hdigits, if_pos hbounds]

theorem resolve_eq_ok_iff :
    field.resolve token = .ok value ↔
      field.value? token = some value ∧ field.bounds.contains value = true := by
  unfold resolve
  cases hvalue : field.value? token with
  | none => simp
  | some found =>
    by_cases hbounds : field.bounds.contains found = true
    · simp only [hbounds, if_true, Except.ok.injEq, Option.some.injEq]
      exact ⟨fun h => ⟨h, h ▸ hbounds⟩, fun h => h.1⟩
    · simp only [hbounds, Bool.false_eq_true, if_false, reduceCtorEq, Option.some.injEq, false_iff]
      rintro ⟨rfl, h⟩
      exact hbounds h

theorem resolve_eq_ok_iff_denotes :
    field.resolve token = .ok value ↔ field.DenotesValue token value := by
  rw [resolve_eq_ok_iff, value?, Option.or_eq_some_iff]
  constructor
  · rintro ⟨hnamed | ⟨_, hliteral⟩, hbounds⟩
    · obtain ⟨name, hmem, hname⟩ := valueOfName?_eq_some_iff.mp hnamed
      exact DenotesValue.name hmem hname
    · obtain ⟨hdigits, _, rfl⟩ := literal?_eq_some_iff.mp hliteral
      exact DenotesValue.numeral hdigits hbounds
  · intro h
    cases h with
    | name hmem hname =>
      refine ⟨Or.inl ?_, contains_of_mem_names hmem⟩
      exact valueOfName?_eq_some_iff.mpr ⟨_, hmem, hname⟩
    | numeral hdigits hbounds =>
      refine ⟨Or.inr ⟨valueOfName?_of_isDigits hdigits, ?_⟩, hbounds⟩
      exact literal?_of_contains hdigits hbounds

/-! ### Reading bases -/

/-- Two values are read in order when both can be read and the second is not smaller. -/
theorem ordered_eq_ok_iff {ε α : Type} {read : List Char → Except ε Nat} {fault : Nat → Nat → ε}
    {ends : Nat → Nat → α} {start stop : List Char} {result : α} :
    (do let first ← read start
        let last ← read stop
        if last < first then .error (fault first last) else .ok (ends first last)) = .ok result ↔
      ∃ first last, read start = .ok first ∧ read stop = .ok last ∧ first ≤ last ∧
        ends first last = result := by
  constructor
  · intro h
    obtain ⟨first, hfirst, h⟩ := bind_eq_ok_iff.mp h
    obtain ⟨last, hlast, h⟩ := bind_eq_ok_iff.mp h
    obtain ⟨hle, hends⟩ := ite_error_eq_ok_iff.mp h
    exact ⟨first, last, hfirst, hlast, Nat.not_lt.mp hle, Except.ok.inj hends⟩
  · rintro ⟨first, last, hfirst, hlast, hle, rfl⟩
    refine bind_eq_ok_iff.mpr ⟨first, hfirst, bind_eq_ok_iff.mpr ⟨last, hlast, ?_⟩⟩
    exact ite_error_eq_ok_iff.mpr ⟨Nat.not_lt.mpr hle, rfl⟩

theorem append_hyphen_ne_star (start stop : List Char) : start ++ '-' :: stop ≠ ['*'] := by
  intro h
  have hmem : '-' ∈ start ++ '-' :: stop := List.mem_append_right _ List.mem_cons_self
  rw [h, List.mem_singleton] at hmem
  exact absurd hmem (by decide)

theorem readEnds_eq_ok_iff {isOpen : Bool} :
    field.readEnds isOpen base = .ok (first, last) ↔
      field.DenotesEnds isOpen base first last := by
  constructor
  · intro h
    unfold readEnds at h
    split at h
    case isTrue hstar =>
      cases h
      rw [hstar]
      exact DenotesEnds.star
    case isFalse =>
      split at h
      case h_1 start stop hcut =>
        obtain ⟨rfl, _⟩ := cutAt?_eq_some_iff.mp hcut
        obtain ⟨low, high, hlow, hhigh, hle, hends⟩ := ordered_eq_ok_iff.mp h
        rw [resolve_eq_ok_iff_denotes] at hlow hhigh
        cases hends
        exact DenotesEnds.range hlow hhigh hle
      case h_2 =>
        obtain ⟨value, hvalue, h⟩ := map_eq_ok_iff.mp h
        cases h
        exact DenotesEnds.single (resolve_eq_ok_iff_denotes.mp hvalue)
  · intro h
    cases h with
    | star => exact if_pos rfl
    | single hvalue =>
      have hcut : cutAt? '-' base = none := cutAt?_eq_none_iff.mpr (hvalue.shape.notMem (by decide))
      rw [readEnds, if_neg hvalue.shape.ne_star, hcut]
      exact map_eq_ok_iff.mpr ⟨_, resolve_eq_ok_iff_denotes.mpr hvalue, rfl⟩
    | @range start stop _ _ hfirst hlast hle =>
      have hcut := cutAt?_append stop (hfirst.shape.notMem (c := '-') (by decide))
      rw [← resolve_eq_ok_iff_denotes] at hfirst hlast
      rw [readEnds, if_neg (append_hyphen_ne_star start stop), hcut]
      exact ordered_eq_ok_iff.mpr ⟨_, _, hfirst, hlast, hle, rfl⟩

theorem exists_denotesEnds_of_checkBase (isOpen : Bool) (h : field.checkBase base = .ok ()) :
    ∃ first last, field.DenotesEnds isOpen base first last := by
  unfold checkBase at h
  split at h
  case isTrue hstar =>
    rw [hstar]
    exact ⟨_, _, DenotesEnds.star⟩
  case isFalse =>
    split at h
    case h_1 =>
      obtain ⟨value, hvalue, _⟩ := map_eq_ok_iff.mp h
      exact ⟨_, _, DenotesEnds.single (checkValue_eq_ok_iff.mp hvalue)⟩
    case h_2 start stop hsplit =>
      have hbase : ['-'].intercalate (base.splitOn '-') = base := List.intercalate_splitOn '-'
      rw [hsplit, List.intercalate_cons_cons, List.intercalate_singleton] at hbase
      obtain ⟨_, h⟩ := ite_error_eq_ok_iff.mp h
      obtain ⟨first, last, hfirst, hlast, hle, _⟩ := ordered_eq_ok_iff.mp h
      rw [checkValue_eq_ok_iff] at hfirst hlast
      rw [← hbase, List.append_assoc]
      exact ⟨first, last, DenotesEnds.range hfirst hlast hle⟩
    case h_3 => cases h

/-- The check accepts the bases that denote something, whether or not a step follows. -/
theorem checkBase_eq_ok_iff (isOpen : Bool) :
    field.checkBase base = .ok () ↔ ∃ first last, field.DenotesEnds isOpen base first last := by
  refine ⟨exists_denotesEnds_of_checkBase isOpen, ?_⟩
  rintro ⟨first, last, h⟩
  cases h with
  | star => exact if_pos rfl
  | single hvalue =>
    have hsplit := List.splitOn_eq_singleton (hvalue.shape.notMem (c := '-') (by decide))
    rw [checkBase, if_neg hvalue.shape.ne_star, hsplit]
    exact map_eq_ok_iff.mpr ⟨_, checkValue_eq_ok_iff.mpr hvalue, rfl⟩
  | @range start stop _ _ hfirst hlast hle =>
    have hsplit : (start ++ '-' :: stop).splitOn '-' = [start, stop] := by
      rw [List.splitOn_append_cons_self_of_not_mem (hfirst.shape.notMem (by decide)),
        List.splitOn_eq_singleton (hlast.shape.notMem (by decide))]
    have hne : ¬ (start.isEmpty || stop.isEmpty) = true := by
      simp [hfirst.shape.ne_nil, hlast.shape.ne_nil]
    rw [← checkValue_eq_ok_iff] at hfirst hlast
    rw [checkBase, if_neg (append_hyphen_ne_star start stop), hsplit]
    refine ite_error_eq_ok_iff.mpr ⟨hne, ?_⟩
    exact ordered_eq_ok_iff.mpr ⟨_, _, hfirst, hlast, hle, rfl⟩

/-! ### Reading items -/

theorem readStep_eq_ok_iff {text : List Char} {step : Nat} :
    readStep text = .ok step ↔ literal? text = some step ∧ 0 < step := by
  unfold readStep
  split
  · rename_i n h
    rw [h, Except.ok.injEq, Option.some.injEq]
    omega
  · rename_i h
    simp only [reduceCtorEq, false_iff, not_and, Nat.not_lt]
    intro hstep
    rcases step with _ | n
    · exact Nat.le_refl 0
    · exact absurd hstep (h n)

theorem readItem_eq_ok_iff :
    field.readItem item = .ok stride ↔ field.DenotesStride item stride := by
  constructor
  · intro h
    rw [readItem] at h
    replace h := (ite_error_eq_ok_iff.mp h).2
    split at h
    case h_1 =>
      obtain ⟨⟨first, last⟩, hends, rfl⟩ := map_eq_ok_iff.mp h
      exact DenotesStride.plain (readEnds_eq_ok_iff.mp hends)
    case h_2 base text hcut =>
      obtain ⟨rfl, _⟩ := cutAt?_eq_some_iff.mp hcut
      obtain ⟨step, hstep, h⟩ := bind_eq_ok_iff.mp h
      obtain ⟨⟨first, last⟩, hends, h⟩ := bind_eq_ok_iff.mp h
      cases h
      obtain ⟨hliteral, hpos⟩ := readStep_eq_ok_iff.mp hstep
      obtain ⟨hdigits, hlimit, rfl⟩ := literal?_eq_some_iff.mp hliteral
      exact DenotesStride.stepped (readEnds_eq_ok_iff.mp hends) hdigits hpos hlimit
  · intro h
    have hne : item.isEmpty = false := by simp [h.shape.ne_nil]
    cases h with
    | plain hends =>
      rw [readItem, hne, cutAt?_eq_none_iff.mpr hends.shape.slash_notMem]
      exact map_eq_ok_iff.mpr ⟨_, readEnds_eq_ok_iff.mpr hends, rfl⟩
    | @stepped base step _ _ hends hdigits hpos hlimit =>
      have hliteral := literal?_eq_some_iff.mpr ⟨hdigits, hlimit, rfl⟩
      rw [readItem, hne, cutAt?_append step hends.shape.slash_notMem]
      refine bind_eq_ok_iff.mpr ⟨_, readStep_eq_ok_iff.mpr ⟨hliteral, hpos⟩, ?_⟩
      exact bind_eq_ok_iff.mpr ⟨_, readEnds_eq_ok_iff.mpr hends, rfl⟩

theorem checkItem_eq_ok_iff :
    field.checkItem item = .ok () ↔ ∃ stride, field.DenotesStride item stride := by
  constructor
  · intro h
    unfold checkItem at h
    split at h
    case h_1 =>
      obtain ⟨first, last, hends⟩ := (checkBase_eq_ok_iff false).mp h
      exact ⟨_, DenotesStride.plain hends⟩
    case h_2 base step hcut =>
      obtain ⟨rfl, _⟩ := cutAt?_eq_some_iff.mp hcut
      split at h
      case h_1 count _ hliteral =>
        obtain ⟨first, last, hends⟩ := (checkBase_eq_ok_iff true).mp h
        obtain ⟨hdigits, hlimit, hvalue⟩ := literal?_eq_some_iff.mp hliteral
        have hpos : 0 < decimal step := by omega
        exact ⟨_, DenotesStride.stepped hends hdigits hpos hlimit⟩
      case h_2 => cases h
      case h_3 => cases h
  · rintro ⟨stride, h⟩
    cases h with
    | plain hends =>
      rw [checkItem, cutAt?_eq_none_iff.mpr hends.shape.slash_notMem]
      exact (checkBase_eq_ok_iff false).mpr ⟨_, _, hends⟩
    | @stepped base step _ _ hends hdigits hpos hlimit =>
      obtain ⟨count, hcount⟩ := Nat.exists_eq_succ_of_ne_zero (Nat.ne_of_gt hpos)
      have hliteral := literal?_eq_some_iff.mpr ⟨hdigits, hlimit, hcount⟩
      have hne : base.isEmpty = false := by simp [hends.shape.ne_nil]
      rw [checkItem, cutAt?_append step hends.shape.slash_notMem]
      simp only [hne, hliteral]
      exact (checkBase_eq_ok_iff true).mpr ⟨_, _, hends⟩

/-! ### Reading fields -/

variable {text : List Char}

theorem listShape_of_check (h : field.check text = .ok ()) : ListShape text := by
  rw [check] at h
  obtain ⟨_, h⟩ := ite_error_eq_ok_iff.mp h
  split at h
  case h_1 => cases h
  case h_2 =>
    have hitems := forM_eq_ok_iff.mp (ite_error_eq_ok_iff.mp h).2
    rw [listShape_iff]
    intro item hitem
    have hlisted := (ite_error_eq_ok_iff.mp (hitems item hitem)).2
    obtain ⟨stride, hstride⟩ := checkItem_eq_ok_iff.mp hlisted
    exact hstride.shape

theorem check_eq_ok_iff :
    field.check text = .ok () ↔
      ∀ item ∈ text.splitOn ',', ∃ stride, field.DenotesStride item stride := by
  have hitems : (text.splitOn ',').forM field.checkItem = .ok () ↔
      ∀ item ∈ text.splitOn ',', ∃ stride, field.DenotesStride item stride := by
    simp only [forM_eq_ok_iff, checkItem_eq_ok_iff]
  constructor
  · intro h
    rw [(listShape_of_check h).check_eq_forM] at h
    exact hitems.mp h
  · intro h
    have hshape : ListShape text := by
      rw [listShape_iff]
      intro item hitem
      obtain ⟨stride, hstride⟩ := h item hitem
      exact hstride.shape
    rw [hshape.check_eq_forM]
    exact hitems.mpr h

end Field

end Cron
