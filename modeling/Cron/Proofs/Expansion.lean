/-
  Cron/Proofs/Expansion.lean
  ==========================
  **What every expanded field is like.**

  A stride that an item denotes starts and stops within the bounds of its field, in
  this order (`within_of_denotesStride`).  So the values of a field that was expanded
  are ascending, lie within the bounds, and are never none: the start of each stride is
  among them.  They are all the values that some item's stride passes through, and a field
  is expanded whenever all its items denote strides (`expand_eq_ok_iff_denotes`).
-/
import Cron.Proofs.Denotation
import Mathlib.Data.List.Sort

namespace Cron

open Cron.Text

/-- Whether a stride starts and stops within bounds, in this order, and moves. -/
structure Stride.Within (stride : Stride) (bounds : Bounds) : Prop where
  start_mem : bounds.contains stride.start = true
  start_le : stride.start ≤ stride.stop
  stop_mem : bounds.contains stride.stop = true
  step_pos : 0 < stride.step

namespace Field

variable {field : Field}

/-! ### Strides within the bounds -/

theorem contains_of_denotesValue {token : List Char} {value : Nat}
    (h : field.DenotesValue token value) : field.bounds.contains value = true := by
  cases h with
  | name hmem _ => exact contains_of_mem_names hmem
  | numeral _ hbounds => exact hbounds

theorem within_of_denotesEnds {isOpen : Bool} {base : List Char} {first last step : Nat}
    (h : field.DenotesEnds isOpen base first last) (hstep : 0 < step) :
    Stride.Within ⟨first, last, step⟩ field.bounds := by
  cases h with
  | star => exact ⟨field.contains_min, le_max field.contains_min, field.contains_max, hstep⟩
  | single hvalue =>
    have hbounds := contains_of_denotesValue hvalue
    cases isOpen with
    | true => exact ⟨hbounds, le_max hbounds, field.contains_max, hstep⟩
    | false => exact ⟨hbounds, Nat.le_refl first, hbounds, hstep⟩
  | range hfirst hlast hle =>
    exact ⟨contains_of_denotesValue hfirst, hle, contains_of_denotesValue hlast, hstep⟩

theorem within_of_denotesStride {item : List Char} {stride : Stride}
    (h : field.DenotesStride item stride) : stride.Within field.bounds := by
  cases h with
  | plain hends => exact within_of_denotesEnds hends Nat.one_pos
  | stepped hends _ hpos _ => exact within_of_denotesEnds hends hpos

/-! ### Expanded fields -/

variable {text : List Char} {values : List Nat}

/-- A text denotes as many strides as it has items, and it has some. -/
theorem ne_nil_of_strides {strides : List Stride} (h : field.strides text = .ok strides) :
    strides ≠ [] := by
  rintro rfl
  have hmap := mapM_eq_ok_iff.mp h
  rw [List.map_nil, List.map_eq_nil_iff] at hmap
  exact List.splitOn_ne_nil _ _ hmap

theorem mem_strides_iff {strides : List Stride} (h : field.strides text = .ok strides)
    {stride : Stride} :
    stride ∈ strides ↔ ∃ item ∈ text.splitOn ',', field.DenotesStride (trim item) stride := by
  have hmap := mapM_eq_ok_iff.mp h
  have hread : stride ∈ strides ↔
      .ok stride ∈ (text.splitOn ',').map fun item => field.readItem (trim item) := by
    simp [hmap]
  rw [hread, List.mem_map]
  simp only [readItem_eq_ok_iff]

theorem within_of_strides {strides : List Stride} (h : field.strides text = .ok strides)
    {stride : Stride} (hmem : stride ∈ strides) : stride.Within field.bounds := by
  obtain ⟨item, _, hitem⟩ := (mem_strides_iff h).mp hmem
  exact within_of_denotesStride hitem

/-- The strides of a field pass through something: through the start of the first one. -/
theorem collect_ne_nil_of_strides {strides : List Stride} (h : field.strides text = .ok strides) :
    Stride.collect strides ≠ [] := by
  obtain ⟨stride, hmem⟩ := List.exists_mem_of_ne_nil _ (ne_nil_of_strides h)
  have hwithin := within_of_strides h hmem
  have hstart : stride.start ∈ stride.values :=
    (Stride.mem_values_iff hwithin.step_pos).mpr ⟨0, by omega, hwithin.start_le⟩
  exact List.ne_nil_of_mem (Stride.mem_collect.mpr ⟨stride, hmem, hstart⟩)

/-- Whatever can be read as strides expands to what these pass through. -/
theorem expand_eq_ok_iff :
    field.expand text = .ok values ↔
      ∃ strides, field.strides text = .ok strides ∧ Stride.collect strides = values := by
  unfold expand
  cases hstrides : field.strides text with
  | error fault => simp
  | ok strides => simp [collect_ne_nil_of_strides hstrides]

theorem expand_of_strides_error {fault : ExpansionFault} (h : field.strides text = .error fault) :
    field.expand text = .error ⟨field, fault⟩ := by
  rw [expand, h]

/-- The expansion succeeds on the texts all of whose items denote something when the
    blanks around them are dropped. -/
theorem exists_expand_eq_ok_iff :
    (∃ values, field.expand text = .ok values) ↔
      ∀ item ∈ text.splitOn ',', ∃ stride, field.DenotesStride (trim item) stride := by
  simp only [← readItem_eq_ok_iff]
  refine Iff.trans ?_ exists_mapM_eq_ok_iff
  constructor
  · rintro ⟨values, h⟩
    obtain ⟨strides, hstrides, _⟩ := expand_eq_ok_iff.mp h
    exact ⟨strides, hstrides⟩
  · rintro ⟨strides, hstrides⟩
    exact ⟨_, expand_eq_ok_iff.mpr ⟨strides, hstrides, rfl⟩⟩

theorem pairwise_of_expand (h : field.expand text = .ok values) : values.Pairwise (· < ·) := by
  obtain ⟨strides, _, rfl⟩ := expand_eq_ok_iff.mp h
  exact Stride.pairwise_collect strides

/-- An expanded field permits something. -/
theorem ne_nil_of_expand (h : field.expand text = .ok values) : values ≠ [] := by
  obtain ⟨strides, hstrides, rfl⟩ := expand_eq_ok_iff.mp h
  exact collect_ne_nil_of_strides hstrides

/-! ### What a text denotes -/

/-- A text denotes a value: the stride of one of its items passes through it.  Blanks may
    stand around the items. -/
def Denotes (field : Field) (text : List Char) (value : Nat) : Prop :=
  ∃ item ∈ text.splitOn ',', ∃ stride, field.DenotesStride (trim item) stride ∧
    ∃ k, value = stride.start + k * stride.step ∧ value ≤ stride.stop

theorem Denotes.contains {value : Nat} (h : field.Denotes text value) :
    field.bounds.contains value = true := by
  obtain ⟨item, _, stride, hitem, k, rfl, hle⟩ := h
  have hwithin := within_of_denotesStride hitem
  have hstart := hwithin.start_mem
  have hstop := hwithin.stop_mem
  simp only [Bounds.contains, Bool.and_eq_true, decide_eq_true_eq] at hstart hstop ⊢
  exact ⟨hstart.1.trans (Nat.le_add_right _ _), hle.trans hstop.2⟩

theorem mem_expand_iff (h : field.expand text = .ok values) {value : Nat} :
    value ∈ values ↔ field.Denotes text value := by
  obtain ⟨strides, hstrides, rfl⟩ := expand_eq_ok_iff.mp h
  rw [Stride.mem_collect]
  constructor
  · rintro ⟨stride, hmem, hvalue⟩
    rw [Stride.mem_values_iff (within_of_strides hstrides hmem).step_pos] at hvalue
    obtain ⟨item, hitem, hstride⟩ := (mem_strides_iff hstrides).mp hmem
    exact ⟨item, hitem, stride, hstride, hvalue⟩
  · rintro ⟨item, hitem, stride, hstride, hvalue⟩
    refine ⟨stride, (mem_strides_iff hstrides).mpr ⟨item, hitem, hstride⟩, ?_⟩
    exact (Stride.mem_values_iff (within_of_denotesStride hstride).step_pos).mpr hvalue

/-- Nothing beyond the bounds of a field is ever permitted. -/
theorem contains_of_mem_expand (h : field.expand text = .ok values) {value : Nat}
    (hmem : value ∈ values) : field.bounds.contains value = true :=
  ((mem_expand_iff h).mp hmem).contains

/-- **Denotation.**  A text expands to a list of values exactly when each of its items
    denotes a stride and the list holds, in ascending order, the values that these pass
    through.  The list is then not empty, and lies within the bounds of the field. -/
theorem expand_eq_ok_iff_denotes (field : Field) (text : List Char) (values : List Nat) :
    (field.expand text = .ok values ↔
      (∀ item ∈ text.splitOn ',', ∃ stride, field.DenotesStride (trim item) stride) ∧
        values.Pairwise (· < ·) ∧ ∀ value, value ∈ values ↔ field.Denotes text value) ∧
      (field.expand text = .ok values →
        values ≠ [] ∧ ∀ value ∈ values, field.bounds.contains value = true) := by
  refine ⟨⟨fun h => ?_, ?_⟩, fun h => ?_⟩
  · exact ⟨exists_expand_eq_ok_iff.mp ⟨values, h⟩, pairwise_of_expand h, fun _ => mem_expand_iff h⟩
  · rintro ⟨hitems, hsorted, hmem⟩
    obtain ⟨found, hfound⟩ := exists_expand_eq_ok_iff.mpr hitems
    have hsame : ∀ value, value ∈ found ↔ value ∈ values := by
      intro value
      rw [mem_expand_iff hfound, hmem]
    rw [hfound, (pairwise_of_expand hfound).eq_of_mem_iff hsorted hsame]
  · exact ⟨ne_nil_of_expand h, fun value => contains_of_mem_expand h⟩

/-- Every second day from Monday on, Friday to Saturday, and with the longest of all steps
    only Sunday: names mix with numbers, and Friday, denoted twice, is listed once. -/
theorem denotes_weekdays :
    let text := " Mon/2 ,5-SAT\t,*/4294967295".toList
    Field.expand .weekday text = .ok [0, 1, 3, 5, 6] ∧
      (∀ value, value ∈ [0, 1, 3, 5, 6] ↔ Field.Denotes .weekday text value) ∧
      ∀ value ∈ [0, 1, 3, 5, 6], Field.weekday.bounds.contains value = true := by
  intro text
  have h : Field.expand .weekday text = .ok [0, 1, 3, 5, 6] := by decide +kernel
  obtain ⟨_, _, hdenotes⟩ := (expand_eq_ok_iff_denotes .weekday text _).1.mp h
  exact ⟨h, hdenotes, ((expand_eq_ok_iff_denotes .weekday text _).2 h).2⟩

end Field

end Cron
