/-
  Cron/Proofs/Record.lean
  =======================
  **Records of numbers are read as they were written.**

  A number is written as its shortest numeral, which has no superfluous zero, and a comma
  or a bracket ends it.  So a reader takes all of it and nothing more (`readNatural_numeral`).

  The members of a record are read one after the other.  What has been read so far, and
  what is still to come, tell how far a reader has got: each member adds its value under
  its own name (`readMember_text`), and at the end every name has its value
  (`readDocument_recordText`).
-/
import Cron.Document
import Cron.Proofs.Text
import Mathlib.Data.List.Nodup
import Mathlib.Tactic.IntervalCases

namespace Cron

open Cron.Text

/-! ### Numerals -/

/-- Only zero is written with a leading zero. -/
theorem Text.head?_numeral_ne {n : Nat} (h : 0 < n) : (numeral n).head? ≠ some '0' := by
  induction n using Nat.strong_induction_on with
  | _ n ih =>
    rw [numeral, Nat.toDigits_eq_if (by decide)]
    by_cases hdigit : n < 10
    · rw [if_pos hdigit]
      interval_cases n <;> decide
    · have hrest := ih (n / 10) (by omega) (by omega)
      have hne : Nat.toDigits 10 (n / 10) ≠ [] := by simp
      rw [if_neg hdigit, List.head?_append_of_ne_nil _ hne]
      exact hrest

theorem Text.exists_numeral_eq_cons (n : Nat) :
    ∃ digit digits, numeral n = digit :: digits ∧ digit.isDigit = true := by
  have hdigits := isDigits_numeral n
  cases hnumeral : numeral n with
  | nil =>
    rw [hnumeral] at hdigits
    cases hdigits
  | cons digit digits =>
    rw [hnumeral] at hdigits
    exact ⟨digit, digits, rfl, isDigit_of_isDigits hdigits digit List.mem_cons_self⟩

/-- Of parts that are joined, every one but the first comes after a separator. -/
theorem Text.intercalate_cons (sep : Char) (first : List Char) (parts : List (List Char)) :
    [sep].intercalate (first :: parts) = first ++ parts.flatMap (sep :: ·) := by
  induction parts generalizing first with
  | nil => simp
  | cons second parts ih =>
    rw [List.intercalate_cons_cons, ih, List.flatMap_cons]
    simp

namespace Json

/-- Whether a numeral can end before a text: the text goes on with nothing that a number
    could go on with. -/
def EndsNumeral (rest : List Char) : Prop :=
  ∀ c ∈ rest.head?, c.isDigit = false ∧ c ≠ '.' ∧ c ≠ 'e' ∧ c ≠ 'E'

theorem endsNumeral_cons {c : Char} {rest : List Char}
    (h : c.isDigit = false ∧ c ≠ '.' ∧ c ≠ 'e' ∧ c ≠ 'E') : EndsNumeral (c :: rest) := by
  rintro _ ⟨⟩
  exact h

section Numeral

variable {n : Nat} {rest : List Char} (hends : EndsNumeral rest)
include hends

theorem readDigits_numeral (atEnd : Fault) :
    readDigits atEnd (numeral n ++ rest) = .ok (numeral n, rest) := by
  have hdigits : ∀ c ∈ numeral n, c.isDigit = true := fun _ hc =>
    Nat.isDigit_of_mem_toDigits (by decide) (by decide) hc
  have hne : numeral n ≠ [] := by simp [numeral]
  have hstop : rest.takeWhile Char.isDigit = [] ∧ rest.dropWhile Char.isDigit = rest := by
    cases rest with
    | nil => exact ⟨rfl, rfl⟩
    | cons c rest => simp [(hends c rfl).1]
  rw [readDigits, List.takeWhile_append_of_pos hdigits, List.dropWhile_append_of_pos hdigits,
    hstop.1, hstop.2, List.append_nil]
  cases hnumeral : numeral n with
  | nil => exact absurd hnumeral hne
  | cons c digits => rfl

theorem readFraction_of_ends (atEnd : Fault) : readFraction atEnd rest = .ok ([], rest) := by
  cases rest with
  | nil => rfl
  | cons c rest =>
    obtain ⟨_, hpoint, _⟩ := hends c rfl
    unfold readFraction
    split
    case h_1 heq => exact absurd (List.cons.inj heq).1 hpoint
    case h_2 => rfl

theorem readExponent_of_ends (atEnd : Fault) : readExponent atEnd rest = .ok (none, rest) := by
  cases rest with
  | nil => rfl
  | cons c rest =>
    obtain ⟨_, _, hlower, hupper⟩ := hends c rfl
    unfold readExponent
    split
    case h_1 heq => exact absurd (List.cons.inj heq).1 hlower
    case h_2 heq => exact absurd (List.cons.inj heq).1 hupper
    case h_3 => rfl

theorem readUnsigned_numeral (atEnd : Fault) (negative : Bool) :
    readUnsigned atEnd negative (numeral n ++ rest) =
      .ok (⟨negative, numeral n, [], none⟩, rest) := by
  have hzero : ((numeral n).head? == some '0' && 1 < (numeral n).length) = false := by
    rcases Nat.eq_zero_or_pos n with rfl | hpos
    · rfl
    · rw [beq_eq_false_iff_ne.mpr (head?_numeral_ne hpos), Bool.false_and]
  rw [readUnsigned, readDigits_numeral hends]
  simp only [bind, Except.bind, hzero, readFraction_of_ends hends, readExponent_of_ends hends]
  rfl

theorem readNumeral_numeral (atEnd : Fault) :
    readNumeral atEnd (numeral n ++ rest) = .ok (⟨false, numeral n, [], none⟩, rest) := by
  obtain ⟨digit, digits, hnumeral, hdigit⟩ := exists_numeral_eq_cons n
  rw [← readUnsigned_numeral hends atEnd false, hnumeral]
  unfold readNumeral
  split
  case h_1 heq =>
    rw [(List.cons.inj heq).1] at hdigit
    cases hdigit
  case h_2 => rfl

/-- A number below the limit is read back. -/
theorem readNatural_numeral {limit : Nat} (hn : n < limit) :
    readNatural limit (numeral n ++ rest) = .ok (n, rest) := by
  have hskip : skipBlanks (numeral n ++ rest) = numeral n ++ rest := by
    obtain ⟨digit, digits, hnumeral, hdigit⟩ := exists_numeral_eq_cons n
    have hblank : isBlank digit = false := by
      simp only [isBlank, Bool.or_eq_false_iff, beq_eq_false_iff_ne]
      refine ⟨⟨⟨?_, ?_⟩, ?_⟩, ?_⟩ <;> rintro rfl <;> cases hdigit
    rw [hnumeral, List.cons_append, skipBlanks, List.dropWhile_cons_of_neg (by simp [hblank])]
  have hvalue : (Numeral.mk false (numeral n) [] none).natural? = some n := by
    simp [Numeral.natural?, decimal_numeral]
  rw [readNatural, hskip, readNumeral_numeral hends]
  simp [hvalue, Option.filter_some, hn]

end Numeral

/-! ### Members -/

/-- A member as it is written. -/
def memberText (field : String × Nat) : List Char :=
  quote field.1.toList ++ ':' :: numeral field.2

/-- Members whose values have been found. -/
def found (fields : List (String × Nat)) : Members :=
  fields.map fun field => (field.1, some field.2)

/-- Members whose values are still to come. -/
def due (fields : List (String × Nat)) : Members :=
  fields.map fun field => (field.1, none)

theorem map_fst_found (fields : List (String × Nat)) :
    (found fields).map Prod.fst = fields.map Prod.fst :=
  List.map_map

theorem map_fst_due (fields : List (String × Nat)) :
    (due fields).map Prod.fst = fields.map Prod.fst :=
  List.map_map

theorem set_of_notMem {members : Members} {name : String} {value : Nat}
    (h : name ∉ members.map Prod.fst) : members.set name value = members := by
  have hkeep : ∀ member ∈ members,
      (if member.1 = name then (name, some value) else member) = member := by
    intro member hmember
    apply if_neg
    rintro rfl
    exact h (List.mem_map_of_mem hmember)
  rw [Members.set, List.map_congr_left hkeep, List.map_id']

section Step

variable {before after : List (String × Nat)} {field : String × Nat}
  (hnames : ((before ++ field :: after).map Prod.fst).Nodup)
include hnames

theorem notMem_of_nodup :
    field.1 ∉ before.map Prod.fst ∧ field.1 ∉ after.map Prod.fst := by
  rw [List.map_append, List.map_cons, List.nodup_middle, List.nodup_cons, List.mem_append,
    not_or] at hnames
  exact hnames.1

theorem lookup_due : (found before ++ due (field :: after)).lookup field.1 = some none := by
  have hnone : (found before).lookup field.1 = none := by
    rw [List.lookup_eq_none_iff]
    intro member hmember
    rw [bne_iff_ne]
    intro heq
    apply (notMem_of_nodup hnames).1
    rw [heq, ← map_fst_found]
    exact List.mem_map_of_mem hmember
  rw [List.lookup_append, hnone, Option.none_or, due, List.map_cons, List.lookup_cons_self]

theorem set_due :
    (found before ++ due (field :: after)).set field.1 field.2 =
      found (before ++ [field]) ++ due after := by
  obtain ⟨hbefore, hafter⟩ := notMem_of_nodup hnames
  rw [← map_fst_found] at hbefore
  rw [← map_fst_due] at hafter
  have hfield : Members.set [(field.1, none)] field.1 field.2 = found [field] := by
    simp [Members.set, found]
  calc (found before ++ due (field :: after)).set field.1 field.2
    _ = (found before).set field.1 field.2 ++ Members.set [(field.1, none)] field.1 field.2 ++
          (due after).set field.1 field.2 := by
      simp [Members.set, due]
    _ = found before ++ found [field] ++ due after := by
      rw [set_of_notMem hbefore, hfield, set_of_notMem hafter]
    _ = found (before ++ [field]) ++ due after := by
      simp [found]

/-- A reader that has come to a member finds its value. -/
theorem readMember_text {limit : Nat} (isFirst : Bool) {rest : List Char}
    (hvalue : field.2 < limit) (hends : EndsNumeral rest) :
    readMember limit isFirst (found before ++ due (field :: after))
        ((if isFirst then [] else [',']) ++ memberText field ++ rest) =
      .ok (found (before ++ [field]) ++ due after, rest) := by
  have hcomma : skipComma isFirst ((if isFirst then [] else [',']) ++ memberText field ++ rest) =
      .ok (memberText field ++ rest) := by
    cases isFirst with
    | true => rfl
    | false => rfl
  have hname : readName true (memberText field ++ rest) =
      .ok (field.1.toList, ':' :: (numeral field.2 ++ rest)) := by
    have htext : memberText field ++ rest =
        '"' :: (field.1.toList.flatMap escape ++ '"' :: ':' :: (numeral field.2 ++ rest)) := by
      simp [memberText, quote]
    rw [htext]
    exact readQuoted_flatMap_escape true field.1.toList (':' :: (numeral field.2 ++ rest))
  have hmark : readMark ':' (':' :: (numeral field.2 ++ rest)) = .ok ((), numeral field.2 ++ rest) :=
    rfl
  rw [readMember, hcomma]
  simp only [bind, Except.bind, hname, String.ofList_toList, lookup_due hnames, hmark,
    readNatural_numeral hends hvalue, set_due hnames]
  rfl

end Step

/-! ### Records -/

/-- The members still to come, each after a comma, and the bracket that closes the record. -/
def laterText (fields : List (String × Nat)) (rest : List Char) : List Char :=
  fields.flatMap (fun field => ',' :: memberText field) ++ '\x7d' :: rest

theorem endsNumeral_laterText (fields : List (String × Nat)) (rest : List Char) :
    EndsNumeral (laterText fields rest) := by
  cases fields with
  | nil => exact endsNumeral_cons (by decide)
  | cons field fields => exact endsNumeral_cons (by decide)

theorem readMembers_close {limit : Nat} {isFirst : Bool} {members : Members} (rest : List Char) :
    readMembers limit isFirst members ('\x7d' :: rest) = .ok (members, rest) := by
  rw [readMembers]
  rfl

theorem readMembers_of_readMember {limit : Nat} {isFirst : Bool} {members next : Members}
    {s rest : List Char} (hopen : (skipBlanks s).head? ≠ some '\x7d')
    (hmember : readMember limit isFirst members s = .ok (next, rest)) :
    readMembers limit isFirst members s = readMembers limit false next rest := by
  rw [readMembers]
  split
  case h_1 heq =>
    rw [heq] at hopen
    exact absurd rfl hopen
  case h_2 =>
    split
    case h_1 herror =>
      rw [hmember] at herror
      cases herror
    case h_2 hok =>
      rw [hmember] at hok
      cases hok
      rfl

section Fields

variable {limit : Nat} {fields : List (String × Nat)} (rest : List Char)

/-- The induction goes through the members still to come, while those found grow. -/
theorem readMembers_laterText {before after : List (String × Nat)}
    (hnames : ((before ++ after).map Prod.fst).Nodup) (hvalues : ∀ field ∈ after, field.2 < limit) :
    readMembers limit false (found before ++ due after) (laterText after rest) =
      .ok (found (before ++ after), rest) := by
  induction after generalizing before with
  | nil =>
    rw [List.append_nil, due, List.map_nil, List.append_nil]
    exact readMembers_close rest
  | cons field after ih =>
    rw [List.forall_mem_cons] at hvalues
    have hmember := readMember_text hnames false hvalues.1 (endsNumeral_laterText after rest)
    have htext : laterText (field :: after) rest =
        [','] ++ memberText field ++ laterText after rest := by
      simp [laterText]
    rw [List.append_cons] at hnames
    rw [List.append_cons before, ← ih hnames hvalues.2, htext]
    exact readMembers_of_readMember (by simp [skipBlanks, isBlank]) hmember

variable (hnames : (fields.map Prod.fst).Nodup) (hvalues : ∀ field ∈ fields, field.2 < limit)
include hnames hvalues

theorem readMembers_text :
    readMembers limit true (due fields)
        ([','].intercalate (fields.map memberText) ++ '\x7d' :: rest) =
      .ok (found fields, rest) := by
  cases fields with
  | nil => exact readMembers_close rest
  | cons field after =>
    rw [List.forall_mem_cons] at hvalues
    have htext : [','].intercalate ((field :: after).map memberText) ++ '\x7d' :: rest =
        [] ++ memberText field ++ laterText after rest := by
      simp [Text.intercalate_cons, laterText, List.flatMap_map]
    have hmember : readMember limit true (found [] ++ due (field :: after))
        ([] ++ memberText field ++ laterText after rest) =
          .ok (found [field] ++ due after, laterText after rest) :=
      readMember_text hnames true hvalues.1 (endsNumeral_laterText after rest)
    rw [htext]
    refine (readMembers_of_readMember ?_ hmember).trans ?_
    · simp [memberText, quote, skipBlanks, isBlank]
    · exact readMembers_laterText rest hnames hvalues.2

/-- A record reads as its values. -/
theorem readValues_recordText :
    readValues (fields.map Prod.fst) limit
        (recordText (fields.map fun field => (field.1, numeral field.2)) ++ rest) =
      .ok (fields.map fun field => some field.2, rest) := by
  have htext : skipBlanks (recordText (fields.map fun field => (field.1, numeral field.2)) ++ rest) =
      '\x7b' :: ([','].intercalate (fields.map memberText) ++ '\x7d' :: rest) := by
    simp [recordText, skipBlanks, isBlank, Function.comp_def]
    rfl
  have hdue : (fields.map Prod.fst).map (fun name => (name, none)) = due fields := List.map_map
  have hfound : (found fields).map Prod.snd = fields.map fun field => some field.2 := List.map_map
  rw [readValues, htext]
  change (readMembers limit true ((fields.map Prod.fst).map fun name => (name, none))
    ([','].intercalate (fields.map memberText) ++ '\x7d' :: rest)).map _ = _
  rw [hdue, readMembers_text rest hnames hvalues, ← hfound]
  rfl

end Fields

/-- **Records.**  The document of a record holds what its values make. -/
theorem readDocument_recordText {α : Type} {limit : Nat} {make? : List (Option Nat) → Option α}
    {value : α} (fields : List (String × Nat)) (hnames : (fields.map Prod.fst).Nodup)
    (hvalues : ∀ field ∈ fields, field.2 < limit)
    (hmake : make? (fields.map fun field => some field.2) = some value) :
    readDocument (readRecord (fields.map Prod.fst) limit make?)
        (String.ofList (recordText (fields.map fun field => (field.1, numeral field.2)))) =
      .ok value := by
  have hread := readValues_recordText [] hnames hvalues
  rw [List.append_nil] at hread
  rw [readDocument, String.toList_ofList, readRecord, hread]
  simp only [bind, Except.bind, hmake]
  rfl

end Json

/-! ### Settings and bounds -/

open Cron.Json

/-- Settings with a positive ceiling are read back, however large it is. -/
theorem Settings.ofJson_toJson {settings : Settings} (h : settings.ceiling ≠ 0) :
    ofJson settings.toJson = .ok settings := by
  have hlimit := settings.ceiling.toNat_lt_size
  have hread : readDocument (readRecord [ceilingName] UInt64.size ofJson.settings?)
      settings.toJson = .ok settings := by
    refine readDocument_recordText [(ceilingName, settings.ceiling.toNat)] ?_ ?_ ?_
    · simp
    · simpa using hlimit
    · simp [ofJson.settings?]
  rw [ofJson, hread]
  exact if_neg h

theorem Bounds.ofJson_toJson {bounds : Bounds} (hmin : bounds.min < literalLimit)
    (hmax : bounds.max < literalLimit) : ofJson bounds.toJson = .ok bounds := by
  refine readDocument_recordText [("min", bounds.min), ("max", bounds.max)] ?_ ?_ rfl
  · simp
  · simp [hmin, hmax]

end Cron
