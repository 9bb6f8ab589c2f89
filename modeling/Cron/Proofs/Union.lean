/-
  Cron/Proofs/Union.lean
  ======================
  **A comma is a union.**

  Two texts of a field with a comma between them make a text that denotes what either of
  them denotes.  So an expression that joins two others in one field, and agrees with both
  in the rest, permits what either permits.  This is not how it is searched: a value more
  in one field changes where every carry leads, which months are entered and whether the
  schedule can occur at all.  Yet the search for the joined expression ends with the earlier
  of the runs that the two are due at (`union_of_joins`).
-/
import Cron.Proofs.Agreement
import Cron.Proofs.Planner
import Mathlib.Order.WithBot

namespace Cron

open Cron.Calendar
open Cron.Text

/-! ### Texts -/

namespace Field

variable {field : Field} {left right : List Char}

theorem check_append_comma :
    field.check (left ++ ',' :: right) = .ok () ↔
      field.check left = .ok () ∧ field.check right = .ok () := by
  simp only [check_eq_ok_iff, List.splitOn_append_cons_self, List.forall_mem_append]

theorem denotes_append_comma {value : Nat} :
    field.Denotes (left ++ ',' :: right) value ↔
      field.Denotes left value ∨ field.Denotes right value := by
  simp only [Denotes, List.splitOn_append_cons_self, List.mem_append, or_and_right, exists_or]

end Field

/-- Six texts join two others in a field: there they have the texts of both with a comma
    between them, and elsewhere they agree with both. -/
structure FieldTexts.Joins (joined left right : FieldTexts) (field : Field) : Prop where
  get_field : joined.get field = left.get field ++ ',' :: right.get field
  get_left : ∀ other ≠ field, joined.get other = left.get other
  get_right : ∀ other ≠ field, joined.get other = right.get other

theorem FieldTexts.Joins.check {joined left right : FieldTexts} {field : Field}
    (h : joined.Joins left right field)
    (hleft : ∀ other, Field.check other (left.get other) = .ok ())
    (hright : ∀ other, Field.check other (right.get other) = .ok ()) (other : Field) :
    Field.check other (joined.get other) = .ok () := by
  by_cases hother : other = field
  · rw [hother, h.get_field, Field.check_append_comma]
    exact ⟨hleft field, hright field⟩
  · rw [h.get_left other hother]
    exact hleft other

/-! ### Schedules -/

/-- A schedule unites two others in a field: there it permits what either permits, and
    elsewhere all three permit the same. -/
structure Schedule.Unites (joined left right : Schedule) (field : Field) : Prop where
  mem_field : ∀ value, value ∈ joined.values field ↔
    value ∈ left.values field ∨ value ∈ right.values field
  values_left : ∀ other ≠ field, joined.values other = left.values other
  values_right : ∀ other ≠ field, joined.values other = right.values other

namespace Schedule

variable {joined left right : Schedule} {field : Field}

/-- The values in a field depend only on the text there. -/
theorem values_eq_of_get_eq {schedule other : Schedule} {texts otherTexts : FieldTexts}
    (h : ofTexts texts = .ok schedule) (hother : ofTexts otherTexts = .ok other)
    (hget : texts.get field = otherTexts.get field) :
    schedule.values field = other.values field := by
  have hvalues := ofTexts_eq_ok_iff.mp h field
  rw [hget, ofTexts_eq_ok_iff.mp hother field] at hvalues
  exact (Except.ok.inj hvalues).symm

theorem unites_of_joins {joinedTexts leftTexts rightTexts : FieldTexts}
    (h : joinedTexts.Joins leftTexts rightTexts field) (hjoined : ofTexts joinedTexts = .ok joined)
    (hleft : ofTexts leftTexts = .ok left) (hright : ofTexts rightTexts = .ok right) :
    joined.Unites left right field := by
  refine ⟨fun value => ?_, fun other hother => ?_, fun other hother => ?_⟩
  · rw [Field.mem_expand_iff (ofTexts_eq_ok_iff.mp hjoined field),
      Field.mem_expand_iff (ofTexts_eq_ok_iff.mp hleft field),
      Field.mem_expand_iff (ofTexts_eq_ok_iff.mp hright field), h.get_field,
      Field.denotes_append_comma]
  · exact values_eq_of_get_eq hjoined hleft (h.get_left other hother)
  · exact values_eq_of_get_eq hjoined hright (h.get_right other hother)

/-- Where two schedules differ in one field only, it is enough to look at that field. -/
theorem permits_of_values_eq {schedule other : Schedule} {reading : Reading}
    (h : schedule.permits reading = true) (hfield : reading.get field ∈ other.values field)
    (hrest : ∀ rest ≠ field, schedule.values rest = other.values rest) :
    other.permits reading = true := by
  simp only [permits_iff, contains_iff] at h ⊢
  intro rest
  by_cases hne : rest = field
  · rwa [hne]
  · rw [← hrest rest hne]
    exact h rest

theorem mem_values_of_permits {schedule : Schedule} {reading : Reading}
    (h : schedule.permits reading = true) (field : Field) :
    reading.get field ∈ schedule.values field :=
  contains_iff.mp (permits_iff.mp h field)

namespace Unites

variable (h : joined.Unites left right field)
include h

theorem permits_iff {reading : Reading} :
    joined.permits reading = true ↔
      left.permits reading = true ∨ right.permits reading = true := by
  constructor
  · intro hjoined
    rcases (h.mem_field _).mp (mem_values_of_permits hjoined field) with hleft | hright
    · exact Or.inl (permits_of_values_eq hjoined hleft h.values_left)
    · exact Or.inr (permits_of_values_eq hjoined hright h.values_right)
  · rintro (hleft | hright)
    · apply permits_of_values_eq hleft
      · exact (h.mem_field _).mpr (Or.inl (mem_values_of_permits hleft field))
      · intro other hother
        exact (h.values_left other hother).symm
    · apply permits_of_values_eq hright
      · exact (h.mem_field _).mpr (Or.inr (mem_values_of_permits hright field))
      · intro other hother
        exact (h.values_right other hother).symm

theorem runsAfter_eq (start : Instant) :
    joined.runsAfter start = left.runsAfter start ∪ right.runsAfter start := by
  ext moment
  simp only [runsAfter, Set.mem_union, Set.mem_ofPred_eq, h.permits_iff, and_or_left]

end Unites

end Schedule

/-! ### Runs that are due -/

-- The general lemmas on `WithTop` ask for an order without a last element, and the calendar
-- has a last moment.
theorem le_of_forall_le_coe {left right : WithTop Moment}
    (h : ∀ moment : Moment, right ≤ moment → left ≤ moment) : left ≤ right := by
  cases right with
  | top => exact le_top
  | coe moment => exact h moment le_rfl

/-- A point of the line is known by the moments that it does not come after. -/
theorem eq_of_forall_le_coe_iff {left right : WithTop Moment}
    (h : ∀ moment : Moment, left ≤ moment ↔ right ≤ moment) : left = right :=
  le_antisymm (le_of_forall_le_coe fun moment => (h moment).mpr)
    (le_of_forall_le_coe fun moment => (h moment).mp)

namespace Planner

/-- When the next run is due.  A search that finds none puts it after every moment. -/
def due (planner : Planner) (start : Instant) : WithTop Moment :=
  match planner.nextRun start with
  | .ok next => next
  | .error _ => ⊤

/-- Whether a search says that there is no run. -/
def FindsNone (planner : Planner) (start : Instant) : Prop :=
  ∃ tested, planner.nextRun start = .error (.noNextRun (Instant.ofMoment start.moment) tested)

variable {planner : Planner} {start : Instant} (hs : planner.schedule.WellFormed)
  (hceiling : 5000 ≤ planner.settings.ceiling.toNat)
include hs hceiling

theorem due_le_iff {moment : Moment} :
    planner.due start ≤ moment ↔ ∃ run ∈ planner.schedule.runsAfter start, run ≤ moment := by
  rcases nextRun_isLeast_or_empty hs hceiling start with
    ⟨next, hnext, hleast⟩ | ⟨⟨_, herror⟩, hempty⟩
  · simp only [due, hnext, WithTop.coe_le_coe]
    constructor
    · intro hle
      exact ⟨next, hleast.1, hle⟩
    · rintro ⟨run, hrun, hle⟩
      exact (hleast.2 hrun).trans hle
  · simp [due, herror, hempty]

theorem findsNone_iff :
    planner.FindsNone start ↔ planner.schedule.runsAfter start = ∅ := by
  constructor
  · rintro ⟨tested, herror⟩
    exact runsAfter_eq_empty_of_nextRun hs hceiling herror
  · intro hempty
    exact exists_nextRun_error hs hceiling hempty

end Planner

namespace Schedule.Unites

open Planner

variable {joined left right : Schedule} {field : Field} (h : joined.Unites left right field)
  (hjoined : joined.WellFormed) (hleft : left.WellFormed) (hright : right.WellFormed)
include h hjoined hleft hright

theorem due_eq_min (start : Instant) :
    (ofSchedule joined).due start =
      min ((ofSchedule left).due start) ((ofSchedule right).due start) := by
  have hceiling : 5000 ≤ defaultCeiling.toNat := by decide
  apply eq_of_forall_le_coe_iff
  intro moment
  have hfirst : (ofSchedule left).due start ≤ moment ↔ ∃ run ∈ left.runsAfter start, run ≤ moment :=
    due_le_iff hleft hceiling
  have hsecond :
      (ofSchedule right).due start ≤ moment ↔ ∃ run ∈ right.runsAfter start, run ≤ moment :=
    due_le_iff hright hceiling
  calc (ofSchedule joined).due start ≤ moment
      ↔ ∃ run ∈ joined.runsAfter start, run ≤ moment := due_le_iff hjoined hceiling
    _ ↔ (∃ run ∈ left.runsAfter start, run ≤ moment) ∨
          ∃ run ∈ right.runsAfter start, run ≤ moment := by
        simp only [h.runsAfter_eq, Set.mem_union, or_and_right, exists_or]
    _ ↔ (ofSchedule left).due start ≤ moment ∨ (ofSchedule right).due start ≤ moment :=
        or_congr hfirst.symm hsecond.symm
    _ ↔ min ((ofSchedule left).due start) ((ofSchedule right).due start) ≤ moment :=
        min_le_iff.symm

theorem findsNone_iff (start : Instant) :
    (ofSchedule joined).FindsNone start ↔
      (ofSchedule left).FindsNone start ∧ (ofSchedule right).FindsNone start := by
  have hceiling : 5000 ≤ defaultCeiling.toNat := by decide
  have hfirst : (ofSchedule left).FindsNone start ↔ left.runsAfter start = ∅ :=
    Planner.findsNone_iff hleft hceiling
  have hsecond : (ofSchedule right).FindsNone start ↔ right.runsAfter start = ∅ :=
    Planner.findsNone_iff hright hceiling
  calc (ofSchedule joined).FindsNone start
      ↔ joined.runsAfter start = ∅ := Planner.findsNone_iff hjoined hceiling
    _ ↔ left.runsAfter start = ∅ ∧ right.runsAfter start = ∅ := by
        rw [h.runsAfter_eq, Set.union_empty_iff]
    _ ↔ (ofSchedule left).FindsNone start ∧ (ofSchedule right).FindsNone start :=
        and_congr hfirst.symm hsecond.symm

end Schedule.Unites

/-! ### Expressions -/

namespace Schedule

theorem ofTexts_of_parse {text : String} {texts : FieldTexts} {schedule : Schedule}
    (h : Schedule.parse text = .ok schedule) (htexts : FieldTexts.ofExpression text = .ok texts) :
    ofTexts texts = .ok schedule := by
  obtain ⟨_, found, hfound, hschedule⟩ := parse_eq_ok_iff.mp h
  rw [htexts] at hfound
  cases hfound
  exact hschedule

/-- **Union.**  When an expression joins two accepted ones in a field, it is accepted and
    permits exactly what either permits, and its next run is the earlier of theirs, where a
    run that is never found comes last. -/
theorem union_of_joins {joined left right : String} {joinedTexts leftTexts rightTexts : FieldTexts}
    (field : Field) (hjoined : FieldTexts.ofExpression joined = .ok joinedTexts)
    (hleft : FieldTexts.ofExpression left = .ok leftTexts)
    (hright : FieldTexts.ofExpression right = .ok rightTexts)
    (hjoins : joinedTexts.Joins leftTexts rightTexts field)
    (hleftCheck : checkExpression left = .ok ()) (hrightCheck : checkExpression right = .ok ()) :
    checkExpression joined = .ok () ∧
      ∃ united first second : Schedule, Schedule.parse joined = .ok united ∧
        Schedule.parse left = .ok first ∧ Schedule.parse right = .ok second ∧
        (∀ reading, united.permits reading = true ↔
          first.permits reading = true ∨ second.permits reading = true) ∧
        ∀ start,
          (Planner.ofSchedule united).due start =
              min ((Planner.ofSchedule first).due start) ((Planner.ofSchedule second).due start) ∧
            ((Planner.ofSchedule united).FindsNone start ↔
              (Planner.ofSchedule first).FindsNone start ∧
                (Planner.ofSchedule second).FindsNone start) := by
  have hcheck : checkExpression joined = .ok () := by
    rw [checkExpression_iff_of_texts hleft] at hleftCheck
    rw [checkExpression_iff_of_texts hright] at hrightCheck
    rw [checkExpression_iff_of_texts hjoined]
    exact hjoins.check hleftCheck hrightCheck
  obtain ⟨united, hunited⟩ := exists_parse hcheck
  obtain ⟨first, hfirst⟩ := exists_parse hleftCheck
  obtain ⟨second, hsecond⟩ := exists_parse hrightCheck
  have hunites : united.Unites first second field :=
    unites_of_joins hjoins (ofTexts_of_parse hunited hjoined) (ofTexts_of_parse hfirst hleft)
      (ofTexts_of_parse hsecond hright)
  have hs := wellFormed_of_parse hunited
  have hsFirst := wellFormed_of_parse hfirst
  have hsSecond := wellFormed_of_parse hsecond
  refine ⟨hcheck, united, first, second, hunited, hfirst, hsecond, ?_, ?_⟩
  · intro reading
    exact hunites.permits_iff
  · intro start
    exact ⟨hunites.due_eq_min hs hsFirst hsSecond start,
      hunites.findsNone_iff hs hsFirst hsSecond start⟩

/-- No February has 31 days, but a 31 that joins the 28 in February does no harm: both
    with it and without it the run after the 28 February of a leap year is a year away. -/
theorem union_february :
    let february (days : List Nat) : Schedule := ⟨[0], [0], [0], days, [2], [0, 1, 2, 3, 4, 5, 6]⟩
    let start := Instant.ofMoment ⟨⟨2024, 2, 28, by decide⟩, TimeOfDay.midnight⟩
    let run : Moment := ⟨⟨2025, 2, 28, by decide⟩, TimeOfDay.midnight⟩
    (Planner.ofSchedule (february [31])).due start = ⊤ ∧
      (Planner.ofSchedule (february [28])).due start = run ∧
      Schedule.parse "0 0 0 31,28 feb *" = .ok (february [28, 31]) ∧
      (Planner.ofSchedule (february [28, 31])).due start = run := by
  intro february start run
  have hnever : (Planner.ofSchedule (february [31])).due start = ⊤ := by decide +kernel
  have hrun : (Planner.ofSchedule (february [28])).due start = run := by decide +kernel
  have hunited : Schedule.parse "0 0 0 31,28 feb *" = .ok (february [28, 31]) := by decide +kernel
  have hfirst : Schedule.parse "0 0 0 31 feb *" = .ok (february [31]) := by decide +kernel
  have hsecond : Schedule.parse " 0 0 0\t28 feb *" = .ok (february [28]) := by decide +kernel
  let texts (day : String) : FieldTexts :=
    ⟨['0'], ['0'], ['0'], day.toList, "feb".toList, ['*']⟩
  have hjoinedTexts : FieldTexts.ofExpression "0 0 0 31,28 feb *" = .ok (texts "31,28") := by
    decide +kernel
  have hfirstTexts : FieldTexts.ofExpression "0 0 0 31 feb *" = .ok (texts "31") := by
    decide +kernel
  have hsecondTexts : FieldTexts.ofExpression " 0 0 0\t28 feb *" = .ok (texts "28") := by
    decide +kernel
  have hjoins : (texts "31,28").Joins (texts "31") (texts "28") .day := by
    refine ⟨by decide +kernel, fun other hother => ?_, fun other hother => ?_⟩
    all_goals cases other <;> first | rfl | exact absurd rfl hother
  obtain ⟨_, united, first, second, hunited', hfirst', hsecond', _, hdue⟩ :=
    union_of_joins .day hjoinedTexts hfirstTexts hsecondTexts hjoins (by decide +kernel)
      (by decide +kernel)
  have hdays := (hdue start).1
  rw [← Except.ok.inj (hunited.symm.trans hunited'), ← Except.ok.inj (hfirst.symm.trans hfirst'),
    ← Except.ok.inj (hsecond.symm.trans hsecond'), hnever, hrun, min_eq_right le_top] at hdays
  exact ⟨hnever, hrun, hunited, hdays⟩

end Schedule

end Cron
