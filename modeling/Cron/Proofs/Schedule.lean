/-
  Cron/Proofs/Schedule.lean
  =========================
  **Schedules that are read from a text, and their smallest values.**

  A schedule that was read from a text permits something in every field, nothing
  beyond the field's bounds, and keeps what it permits in ascending order
  (`wellFormed_of_parse`).  In such a schedule `first` and `next?` find what their
  names say: the least permitted value, and the least one above another.
-/
import Cron.Expression
import Cron.Proofs.Expansion
import Mathlib.Order.Bounds.Basic

namespace Cron

open Cron.Calendar
open Cron.Text

/-! ### The first value that passes -/

/-- In an ascending list the first value that passes a test is the least one. -/
theorem find?_eq_some_iff_isLeast {values : List Nat} {test : Nat → Bool} {value : Nat}
    (hsorted : values.Pairwise (· < ·)) :
    values.find? test = some value ↔ IsLeast {v | v ∈ values ∧ test v = true} value := by
  have hleast : ∀ found, values.find? test = some found →
      IsLeast {v | v ∈ values ∧ test v = true} found := by
    intro found hfound
    obtain ⟨hpass, before, after, rfl, hbefore⟩ := List.find?_eq_some_iff_append.mp hfound
    refine ⟨⟨by simp, hpass⟩, ?_⟩
    rintro other ⟨hmem, hother⟩
    rw [List.pairwise_append, List.pairwise_cons] at hsorted
    rcases List.mem_append.mp hmem with hmem | hmem
    · exact absurd hother (by simpa using hbefore other hmem)
    · rcases List.mem_cons.mp hmem with rfl | hmem
      · exact le_refl _
      · exact (hsorted.2.1.1 other hmem).le
  constructor
  · exact hleast value
  · intro h
    cases hfind : values.find? test with
    | none => exact absurd h.1.2 (List.find?_eq_none.mp hfind value h.1.1)
    | some found => rw [(hleast found hfind).unique h]

namespace Schedule

variable {schedule : Schedule} {field : Field}

theorem contains_iff {value : Nat} :
    schedule.contains field value = true ↔ value ∈ schedule.values field := by
  simp [contains]

/-! ### Well-formed schedules -/

/-- What holds of the permitted values of every schedule that a text denotes. -/
structure WellFormed (schedule : Schedule) : Prop where
  nonempty : ∀ field, schedule.values field ≠ []
  ascending : ∀ field, (schedule.values field).Pairwise (· < ·)
  bounded : ∀ field, ∀ value ∈ schedule.values field, field.bounds.contains value = true

theorem ofTexts_eq_ok_iff {texts : FieldTexts} :
    ofTexts texts = .ok schedule ↔
      ∀ field, Field.expand field (texts.get field) = .ok (schedule.values field) := by
  constructor
  · intro h
    obtain ⟨seconds, hseconds, h⟩ := bind_eq_ok_iff.mp h
    obtain ⟨minutes, hminutes, h⟩ := bind_eq_ok_iff.mp h
    obtain ⟨hours, hhours, h⟩ := bind_eq_ok_iff.mp h
    obtain ⟨days, hdays, h⟩ := bind_eq_ok_iff.mp h
    obtain ⟨months, hmonths, h⟩ := bind_eq_ok_iff.mp h
    obtain ⟨weekdays, hweekdays, h⟩ := bind_eq_ok_iff.mp h
    cases h
    intro field
    cases field <;> assumption
  · intro h
    refine bind_eq_ok_iff.mpr ⟨_, h .second, bind_eq_ok_iff.mpr ⟨_, h .minute, ?_⟩⟩
    refine bind_eq_ok_iff.mpr ⟨_, h .hour, bind_eq_ok_iff.mpr ⟨_, h .day, ?_⟩⟩
    exact bind_eq_ok_iff.mpr ⟨_, h .month, bind_eq_ok_iff.mpr ⟨_, h .weekday, rfl⟩⟩

/-- What is expanded after the check are the six words that were checked. -/
theorem parse_eq_ok_iff {text : String} :
    Schedule.parse text = .ok schedule ↔
      checkExpression text = .ok () ∧
        ∃ texts, FieldTexts.ofExpression text = .ok texts ∧ ofTexts texts = .ok schedule := by
  have hplaces : ∀ texts, FieldTexts.ofExpression text = .ok texts →
      FieldTexts.atPlaces (words text.toList) = texts := by
    intro texts htexts
    rw [FieldTexts.ofExpression_eq_ok_iff.mp htexts, FieldTexts.atPlaces_toList]
  constructor
  · intro h
    obtain ⟨_, hcheck, h⟩ := bind_eq_ok_iff.mp h
    rw [mapError_eq_ok_iff] at hcheck h
    obtain ⟨texts, htexts, _⟩ := bind_eq_ok_iff.mp hcheck
    rw [hplaces texts htexts] at h
    exact ⟨hcheck, texts, htexts, h⟩
  · rintro ⟨hcheck, texts, htexts, h⟩
    rw [← hplaces texts htexts] at h
    exact bind_eq_ok_iff.mpr ⟨(), mapError_eq_ok_iff.mpr hcheck, mapError_eq_ok_iff.mpr h⟩

theorem wellFormed_of_ofTexts {texts : FieldTexts} (h : ofTexts texts = .ok schedule) :
    schedule.WellFormed := by
  rw [ofTexts_eq_ok_iff] at h
  exact ⟨fun field => Field.ne_nil_of_expand (h field),
    fun field => Field.pairwise_of_expand (h field),
    fun field _ hmem => Field.contains_of_mem_expand (h field) hmem⟩

theorem wellFormed_of_parse {text : String} (h : Schedule.parse text = .ok schedule) :
    schedule.WellFormed := by
  obtain ⟨_, _, _, htexts⟩ := parse_eq_ok_iff.mp h
  exact wellFormed_of_ofTexts htexts

/-! ### Smallest values -/

theorem next?_eq_none_iff {current : Nat} :
    schedule.next? field current = none ↔ ∀ v ∈ schedule.values field, v ≤ current := by
  simp [next?]

namespace WellFormed

variable (hs : schedule.WellFormed)
include hs

theorem isLeast_first (field : Field) :
    IsLeast {v | v ∈ schedule.values field} (schedule.first field) := by
  have hsorted := hs.ascending field
  unfold first
  cases hvalues : schedule.values field with
  | nil => exact absurd hvalues (hs.nonempty field)
  | cons value values =>
    rw [hvalues, List.pairwise_cons] at hsorted
    refine ⟨List.mem_cons_self, ?_⟩
    rintro other hother
    rcases List.mem_cons.mp hother with rfl | hmem
    · exact le_refl _
    · exact (hsorted.1 other hmem).le

theorem first_mem (field : Field) : schedule.first field ∈ schedule.values field :=
  (hs.isLeast_first field).1

theorem first_le {value : Nat} (h : value ∈ schedule.values field) :
    schedule.first field ≤ value :=
  (hs.isLeast_first field).2 h

theorem bounds_of_mem {value : Nat} (h : value ∈ schedule.values field) :
    field.bounds.min ≤ value ∧ value ≤ field.bounds.max := by
  have hcontains := hs.bounded field value h
  simpa [Bounds.contains] using hcontains

theorem next?_eq_some_iff {current value : Nat} :
    schedule.next? field current = some value ↔
      IsLeast {v | v ∈ schedule.values field ∧ current < v} value := by
  rw [next?, find?_eq_some_iff_isLeast (hs.ascending field)]
  simp only [decide_eq_true_eq]

end WellFormed

end Schedule

end Cron
