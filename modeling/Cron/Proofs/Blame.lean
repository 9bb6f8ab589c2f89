/-
  Cron/Proofs/Blame.lean
  ======================
  **Whether the grammar check and the expansion blame the same thing.**

  A text can be a list of items in its shape only: its words may be unknown, its numerals
  too large and its ranges inverted.  The check and the expansion refuse such a text
  because of the same item, the first that denotes nothing (`check_expand_alike`).

  With one exception they also give the same reason.  A numeral too large for a literal has
  no value in either reader.  The check has made sure by then that it is a numeral, and says
  that it is out of range.  The expansion reports it as it does a word that is no numeral
  at all.
-/
import Cron.Proofs.Expansion
import Cron.Proofs.Faults

namespace Cron

open Cron.Text

/-! ### Computations that end alike -/

/-- Two computations end alike: both succeed, with related values, or both fail, with
    related errors. -/
inductive EndAlike {ε ε' α β : Type} (fault : ε → ε' → Prop) (value : α → β → Prop) :
    Except ε α → Except ε' β → Prop where
  | ok {left : α} {right : β} (h : value left right) :
    EndAlike fault value (.ok left) (.ok right)
  | error {left : ε} {right : ε'} (h : fault left right) :
    EndAlike fault value (.error left) (.error right)

namespace EndAlike

variable {ε ε' α α' β β' : Type} {fault : ε → ε' → Prop} {value : α → β → Prop}
  {result : α' → β' → Prop} {left : Except ε α} {right : Except ε' β}

theorem bind {next : α → Except ε α'} {next' : β → Except ε' β'}
    (h : EndAlike fault value left right)
    (hnext : ∀ a b, value a b → EndAlike fault result (next a) (next' b)) :
    EndAlike fault result (left >>= next) (right >>= next') := by
  cases h with
  | ok h => exact hnext _ _ h
  | error h => exact EndAlike.error h

/-- Steps that cannot fail may follow on both sides. -/
theorem map {f : α → α'} {g : β → β'} (h : EndAlike fault value left right) :
    EndAlike fault (fun _ _ => True) (left.map f) (right.map g) := by
  cases h with
  | ok => exact EndAlike.ok trivial
  | error h => exact EndAlike.error h

/-- One more step on the right, which cannot fail, leaves the faults as they are. -/
theorem map_right {f : β → β'} (h : EndAlike fault value left right) :
    EndAlike fault (fun _ _ => True) left (right.map f) := by
  cases h with
  | ok => exact EndAlike.ok trivial
  | error h => exact EndAlike.error h

/-- Reading a list ends like checking it, when both go alike on each item: it succeeds as
    well, or it fails on the same item. -/
theorem forM_mapM {check : α → Except ε Unit} {read : α → Except ε' β} {items : List α}
    (h : ∀ item ∈ items, EndAlike fault (fun _ _ => True) (check item) (read item)) :
    (items.forM check = .ok () ∧ ∃ results, items.mapM read = .ok results) ∨
      ∃ before item after error error', items = before ++ item :: after ∧
        (∀ earlier ∈ before, check earlier = .ok () ∧ ∃ value, read earlier = .ok value) ∧
        check item = .error error ∧ read item = .error error' ∧ fault error error' ∧
        items.forM check = .error error ∧ items.mapM read = .error error' := by
  induction items with
  | nil => exact Or.inl ⟨rfl, [], rfl⟩
  | cons first items ih =>
    -- the first item fails on both sides or on neither, and then the rest decides
    rw [List.forall_mem_cons] at h
    have hforM : (first :: items).forM check = check first >>= fun _ => items.forM check := rfl
    rw [hforM, List.mapM_cons]
    have hfirst := h.1
    generalize hcheck : check first = left at hfirst
    generalize hread : read first = right at hfirst
    cases hfirst with
    | error hfault =>
      right
      exact ⟨[], first, items, _, _, rfl, List.forall_mem_nil _, hcheck, hread, hfault, rfl, rfl⟩
    | @ok _ value =>
      rcases ih h.2 with ⟨hitems, results, hresults⟩ |
          ⟨before, item, after, error, error', hsplit, hbefore, hitem, hitem', hfault, hitems,
            hresults⟩
      · left
        refine ⟨hitems, value :: results, ?_⟩
        exact bind_eq_ok_iff.mpr ⟨value, rfl, bind_eq_ok_iff.mpr ⟨results, hresults, rfl⟩⟩
      · right
        refine ⟨first :: before, item, after, error, error', ?_, ?_, hitem, hitem', hfault, hitems,
          ?_⟩
        · rw [hsplit, List.cons_append]
        · exact List.forall_mem_cons.mpr ⟨⟨hcheck, value, hread⟩, hbefore⟩
        · rw [hresults]
          rfl

end EndAlike

/-! ### Corresponding faults -/

/-- Both readers say the same about the same piece of text. -/
inductive SameFault : FieldFault → ExpansionFault → Prop where
  | unknownName (token : String) : SameFault (.unknownName token) (.unknownName token)
  | outOfRange (token : String) (bounds : Bounds) :
    SameFault (.outOfRange token bounds) (.outOfRange (decimal token.toList) bounds)
  | invertedRange (token : String) (start stop : Nat) :
    SameFault (.invertedRange token start stop) (.invertedRange start stop)

/-- The fault is a numeral too large for a literal. -/
def FieldFault.IsOversized (fault : FieldFault) : Prop :=
  ∃ token bounds, fault = .outOfRange token bounds ∧ literalLimit ≤ decimal token.toList

/-- The fault is that a word which is a numeral is not known. -/
def ExpansionFault.IsNumeral (fault : ExpansionFault) : Prop :=
  ∃ token, fault = .unknownName token ∧ isDigits token.toList = true

/-- What the expansion reports where the check reports a fault. -/
inductive FieldFault.IsReadAs : FieldFault → ExpansionFault → Prop where
  | unknownName {token : List Char} (hdigits : isDigits token = false) :
    IsReadAs (.unknownName (String.ofList token)) (.unknownName (String.ofList token))
  | outOfRange {token : List Char} (bounds : Bounds) (hlimit : decimal token < literalLimit) :
    IsReadAs (.outOfRange (String.ofList token) bounds) (.outOfRange (decimal token) bounds)
  | oversized {token : List Char} (bounds : Bounds) (hdigits : isDigits token = true)
    (hlimit : literalLimit ≤ decimal token) :
    IsReadAs (.outOfRange (String.ofList token) bounds) (.unknownName (String.ofList token))
  | invertedRange (token : String) (start stop : Nat) :
    IsReadAs (.invertedRange token start stop) (.invertedRange start stop)

namespace FieldFault.IsReadAs

variable {fault : FieldFault} {fault' : ExpansionFault}

/-- The two agree unless the fault is an oversized numeral. -/
theorem sameFault_iff (h : fault.IsReadAs fault') :
    SameFault fault fault' ↔ ¬ fault.IsOversized := by
  cases h with
  | unknownName hdigits =>
    simp [FieldFault.IsOversized, SameFault.unknownName]
  | @outOfRange token bounds hlimit =>
    have hsame := SameFault.outOfRange (String.ofList token) bounds
    rw [String.toList_ofList] at hsame
    simp [FieldFault.IsOversized, hsame, hlimit]
  | oversized bounds hdigits hlimit =>
    refine iff_of_false ?_ (not_not_intro ⟨_, _, rfl, by simpa using hlimit⟩)
    intro h
    cases h
  | invertedRange =>
    simp [FieldFault.IsOversized, SameFault.invertedRange]

/-- Only an oversized numeral makes the expansion call a numeral unknown. -/
theorem isNumeral_iff (h : fault.IsReadAs fault') : fault'.IsNumeral ↔ fault.IsOversized := by
  cases h with
  | unknownName hdigits => simp [FieldFault.IsOversized, ExpansionFault.IsNumeral, hdigits]
  | outOfRange bounds hlimit => simp [FieldFault.IsOversized, ExpansionFault.IsNumeral, hlimit]
  | oversized bounds hdigits hlimit =>
    simp [FieldFault.IsOversized, ExpansionFault.IsNumeral, hdigits, hlimit]
  | invertedRange => simp [FieldFault.IsOversized, ExpansionFault.IsNumeral]

end FieldFault.IsReadAs

/-! ### One item -/

namespace Field

variable {token base item text : List Char}

theorem checkValue_resolve_alike (field : Field) (token : List Char) :
    EndAlike FieldFault.IsReadAs Eq (field.checkValue token) (field.resolve token) := by
  cases h : field.checkValue token with
  | ok value =>
    rw [checkValue_eq_ok_iff, ← resolve_eq_ok_iff_denotes] at h
    rw [h]
    exact EndAlike.ok rfl
  | error fault =>
    cases checkValue_eq_error_iff.mp h with
    | unknownName hname hdigits =>
      have hvalue : field.value? token = none := by
        simp [value?, valueOfName?_eq_none_iff.mpr hname, literal?, hdigits]
      rw [resolve, hvalue]
      exact EndAlike.error (.unknownName hdigits)
    | outOfRange hdigits hbounds =>
      have hvalue : field.value? token = literal? token := by
        simp [value?, valueOfName?_of_isDigits hdigits]
      by_cases hlimit : decimal token < literalLimit
      · rw [resolve, hvalue, literal?_eq_some_iff.mpr ⟨hdigits, hlimit, rfl⟩]
        simp only [hbounds, Bool.false_eq_true, if_false]
        exact EndAlike.error (.outOfRange field.bounds hlimit)
      · have hliteral : literal? token = none := by simp [literal?, hlimit]
        rw [resolve, hvalue, hliteral]
        exact EndAlike.error (.oversized field.bounds hdigits (Nat.not_lt.mp hlimit))

theorem checkBase_readEnds_alike (field : Field) (isOpen : Bool) (h : BaseShape base) :
    EndAlike FieldFault.IsReadAs (fun _ _ => True) (field.checkBase base)
      (field.readEnds isOpen base) := by
  cases h with
  | star => exact EndAlike.ok trivial
  | word hword =>
    have hhyphen : '-' ∉ base := hword.notMem (by decide)
    rw [checkBase, if_neg hword.ne_star, List.splitOn_eq_singleton hhyphen, readEnds,
      if_neg hword.ne_star, cutAt?_eq_none_iff.mpr hhyphen]
    exact (field.checkValue_resolve_alike base).map
  | @range start stop hstart hstop =>
    have hhyphen : '-' ∉ start := hstart.notMem (by decide)
    have hrange : IsRange (start ++ '-' :: stop) start stop :=
      ⟨rfl, hstart.ne_nil, hstop.ne_nil, hhyphen, hstop.notMem (by decide)⟩
    rw [checkBase_of_isRange hrange, readEnds, if_neg (append_hyphen_ne_star start stop),
      cutAt?_append stop hhyphen]
    apply (field.checkValue_resolve_alike start).bind
    rintro first _ rfl
    apply (field.checkValue_resolve_alike stop).bind
    rintro last _ rfl
    by_cases hlt : last < first
    · rw [if_pos hlt, if_pos hlt]
      exact EndAlike.error (.invertedRange _ _ _)
    · rw [if_neg hlt, if_neg hlt]
      exact EndAlike.ok trivial

theorem checkItem_readItem_alike (field : Field) (h : ItemShape item) :
    EndAlike FieldFault.IsReadAs (fun _ _ => True) (field.checkItem item)
      (field.readItem item) := by
  have hne : item.isEmpty = false := by simp [h.ne_nil]
  cases h with
  | plain hbase =>
    rw [checkItem, readItem, hne, cutAt?_eq_none_iff.mpr hbase.slash_notMem]
    exact (field.checkBase_readEnds_alike false hbase).map_right
  | @stepped base step hbase hdigits hpos hlimit =>
    obtain ⟨count, hcount⟩ := Nat.exists_eq_succ_of_ne_zero (Nat.ne_of_gt hpos)
    have hliteral := literal?_eq_some_iff.mpr ⟨hdigits, hlimit, hcount⟩
    have hbaseNe : base.isEmpty = false := by simp [hbase.ne_nil]
    rw [checkItem, readItem, hne, cutAt?_append step hbase.slash_notMem]
    simp only [readStep, hbaseNe, hliteral]
    exact (field.checkBase_readEnds_alike true hbase).map_right

/-! ### Lists of items -/

/-- **Blame.**  A text in the shape of a list is accepted by both readers, or both refuse it
    because of the same item: the first one that does not denote a stride.  They give the
    same reason exactly when this is not a numeral too large for a literal, which is also
    the only numeral that the expansion calls unknown. -/
theorem check_expand_alike (field : Field) (h : ListShape text) :
    (field.check text = .ok () ∧ ∃ values, field.expand text = .ok values) ∨
      ∃ before item after fault fault', text.splitOn ',' = before ++ item :: after ∧
        (∀ earlier ∈ before,
          field.checkItem earlier = .ok () ∧ ∃ stride, field.readItem earlier = .ok stride) ∧
        field.checkItem item = .error fault ∧ field.readItem item = .error fault' ∧
        field.check text = .error fault ∧ field.expand text = .error ⟨field, fault'⟩ ∧
        fault.IsReadAs fault' ∧
        (SameFault fault fault' ↔ ¬ fault.IsOversized) ∧ (fault'.IsNumeral ↔ fault.IsOversized) := by
  have hitems := listShape_iff.mp h
  have halike : ∀ item ∈ text.splitOn ',', EndAlike FieldFault.IsReadAs (fun _ _ => True)
      (field.checkItem item) (field.readItem (trim item)) := by
    intro item hitem
    rw [(hitems item hitem).trim_eq]
    exact field.checkItem_readItem_alike (hitems item hitem)
  rw [h.check_eq_forM]
  rcases EndAlike.forM_mapM halike with ⟨hcheck, strides, hstrides⟩ |
      ⟨before, item, after, fault, fault', hsplit, hbefore, hitem, hitem', hfault, hcheck,
        hstrides⟩
  · left
    exact ⟨hcheck, _, expand_eq_ok_iff.mpr ⟨strides, hstrides, rfl⟩⟩
  · right
    rw [hsplit, List.forall_mem_append, List.forall_mem_cons] at hitems
    obtain ⟨hshapes, hshape, _⟩ := hitems
    rw [hshape.trim_eq] at hitem'
    refine ⟨before, item, after, fault, fault', hsplit, ?_, hitem, hitem', hcheck,
      expand_of_strides_error hstrides, hfault, hfault.sameFault_iff, hfault.isNumeral_iff⟩
    intro earlier hmem
    obtain ⟨hok, stride, hstride⟩ := hbefore earlier hmem
    rw [(hshapes earlier hmem).trim_eq] at hstride
    exact ⟨hok, stride, hstride⟩

/-- Every second day from Monday on is read by both.  Friday to Tuesday is where both stop,
    and they agree on the two days. -/
theorem blame_fridayToTuesday :
    let text := "mon/2,FRI-tue,8".toList
    ListShape text ∧ Field.check .weekday text = .error (.invertedRange "FRI-tue" 5 2) ∧
      Field.expand .weekday text = .error ⟨.weekday, .invertedRange 5 2⟩ ∧
      SameFault (.invertedRange "FRI-tue" 5 2) (.invertedRange 5 2) := by
  intro text
  have hmonday : WordShape "mon".toList := by decide
  have hstride : ItemShape ("mon".toList ++ '/' :: "2".toList) :=
    ItemShape.stepped (BaseShape.word hmonday) (by decide) (by decide) (by decide)
  have hfriday : WordShape "FRI".toList := by decide
  have htuesday : WordShape "tue".toList := by decide
  have hrange := ItemShape.plain (BaseShape.range hfriday htuesday)
  have height : ItemShape "8".toList := ItemShape.plain (BaseShape.word (by decide))
  have h : ListShape text := by
    refine ⟨["mon/2".toList, "FRI-tue".toList, "8".toList], by decide, by decide, ?_⟩
    simp only [List.forall_mem_cons]
    exact ⟨hstride, hrange, height, List.forall_mem_nil _⟩
  have hcheck : Field.check .weekday text = .error (.invertedRange "FRI-tue" 5 2) := by
    decide +kernel
  have hexpand : Field.expand .weekday text = .error ⟨.weekday, .invertedRange 5 2⟩ := by
    decide +kernel
  refine ⟨h, hcheck, hexpand, ?_⟩
  rcases check_expand_alike .weekday h with ⟨hok, _⟩ |
      ⟨_, _, _, fault, fault', _, _, _, _, herror, herror', _, hsame, _⟩
  · rw [hcheck] at hok
    cases hok
  · rw [hcheck] at herror
    rw [hexpand] at herror'
    cases herror
    cases herror'
    apply hsame.mpr
    simp [FieldFault.IsOversized]

/-- The first number beyond the literals is a numeral, but the expansion calls it an unknown
    name, where the check says that it is out of range. -/
theorem blame_oversized :
    let text := "4294967296".toList
    ListShape text ∧ isDigits text = true ∧
      Field.check .second text = .error (.outOfRange "4294967296" ⟨0, 59⟩) ∧
      Field.expand .second text = .error ⟨.second, .unknownName "4294967296"⟩ ∧
      ¬ SameFault (.outOfRange "4294967296" ⟨0, 59⟩) (.unknownName "4294967296") := by
  intro text
  have hitem : ItemShape text := ItemShape.plain (BaseShape.word (by decide))
  have hcheck : Field.check .second text = .error (.outOfRange "4294967296" ⟨0, 59⟩) := by
    decide +kernel
  have hexpand : Field.expand .second text = .error ⟨.second, .unknownName "4294967296"⟩ := by
    decide +kernel
  refine ⟨⟨[text], by decide, by decide, ?_⟩, by decide, hcheck, hexpand, ?_⟩
  · simpa using hitem
  · intro h
    cases h

end Field

end Cron
