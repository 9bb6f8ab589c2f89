/-
  Cron/Proofs/Shape.lean
  ======================
  **The shape of items, whatever their words mean.**

  An item is put together from words and a few signs.  Its shape says with which signs and
  in which order, and nothing about the words: these need be no names of any field, and
  their numerals may have any value.  Everything that denotes something has this shape, so
  the facts about characters that the readers rely on are proved here once.
-/
import Cron.Grammar
import Cron.Proofs.Text
import Cron.Success

namespace Cron

open Cron.Text

/-- A word is written with letters and digits only. -/
structure WordShape (word : List Char) : Prop where
  ne_nil : word ≠ []
  isAlphanum : ∀ c ∈ word, c.isAlphanum = true

/-- A base has the shape of a star, of a word, or of two words around a hyphen. -/
inductive BaseShape : List Char → Prop where
  | star : BaseShape ['*']
  | word {word : List Char} (hword : WordShape word) : BaseShape word
  | range {start stop : List Char} (hstart : WordShape start) (hstop : WordShape stop) :
    BaseShape (start ++ '-' :: stop)

/-- An item has the shape of a base, alone or with a positive literal as its step. -/
inductive ItemShape : List Char → Prop where
  | plain {base : List Char} (hbase : BaseShape base) : ItemShape base
  | stepped {base step : List Char} (hbase : BaseShape base) (hdigits : isDigits step = true)
    (hpos : 0 < decimal step) (hlimit : decimal step < literalLimit) :
    ItemShape (base ++ '/' :: step)

/-- A text has the shape of a list: one item or more, with a comma between any two. -/
def ListShape (text : List Char) : Prop :=
  ∃ items, items ≠ [] ∧ text = [','].intercalate items ∧ ∀ item ∈ items, ItemShape item

variable {word base item text : List Char}

/-! ### Words -/

namespace WordShape

instance (word : List Char) : Decidable (WordShape word) :=
  decidable_of_iff (word ≠ [] ∧ word.all Char.isAlphanum = true)
    ⟨fun h => ⟨h.1, List.all_eq_true.mp h.2⟩, fun h => ⟨h.1, List.all_eq_true.mpr h.2⟩⟩

/-- Signs of the grammar do not occur in words. -/
theorem notMem (h : WordShape word) {c : Char} (hc : c.isAlphanum = false) : c ∉ word := by
  intro hmem
  rw [h.isAlphanum c hmem] at hc
  cases hc

theorem ne_star (h : WordShape word) : word ≠ ['*'] := by
  rintro rfl
  exact h.notMem (by decide) (List.mem_singleton.mpr rfl)

end WordShape

/-! ### Bases -/

namespace BaseShape

theorem isAlphanum_or (h : BaseShape base) :
    ∀ c ∈ base, c.isAlphanum = true ∨ c = '*' ∨ c = '-' := by
  intro c hc
  cases h with
  | star => exact Or.inr (Or.inl (List.mem_singleton.mp hc))
  | word hword => exact Or.inl (hword.isAlphanum c hc)
  | range hstart hstop =>
    rcases List.mem_append.mp hc with hmem | hrest
    · exact Or.inl (hstart.isAlphanum c hmem)
    · rcases List.mem_cons.mp hrest with rfl | hmem
      · exact Or.inr (Or.inr rfl)
      · exact Or.inl (hstop.isAlphanum c hmem)

theorem slash_notMem (h : BaseShape base) : '/' ∉ base := by
  intro hmem
  exact absurd (h.isAlphanum_or '/' hmem) (by decide)

theorem ne_nil (h : BaseShape base) : base ≠ [] := by
  cases h with
  | star => exact List.cons_ne_nil _ _
  | word hword => exact hword.ne_nil
  | range => exact List.append_ne_nil_of_right_ne_nil _ (List.cons_ne_nil _ _)

end BaseShape

/-! ### Items -/

namespace ItemShape

theorem ne_nil (h : ItemShape item) : item ≠ [] := by
  cases h with
  | plain hbase => exact hbase.ne_nil
  | stepped => exact List.append_ne_nil_of_right_ne_nil _ (List.cons_ne_nil _ _)

theorem isAlphanum_or (h : ItemShape item) :
    ∀ c ∈ item, c.isAlphanum = true ∨ c = '*' ∨ c = '-' ∨ c = '/' := by
  intro c hc
  cases h with
  | plain hbase => exact (hbase.isAlphanum_or c hc).imp_right (Or.imp_right Or.inl)
  | stepped hbase hdigits _ _ =>
    rcases List.mem_append.mp hc with hmem | hrest
    · exact (hbase.isAlphanum_or c hmem).imp_right (Or.imp_right Or.inl)
    · rcases List.mem_cons.mp hrest with rfl | hstep
      · exact Or.inr (Or.inr (Or.inr rfl))
      · exact Or.inl (isAlphanum_of_isDigits hdigits c hstep)

theorem admitsChar (h : ItemShape item) : ∀ c ∈ item, Field.admitsChar c = true := by
  intro c hc
  rcases h.isAlphanum_or c hc with halnum | rfl | rfl | rfl
  · rw [Field.admitsChar, halnum, Bool.true_or]
  · decide
  · decide
  · decide

theorem comma_notMem (h : ItemShape item) : ',' ∉ item := by
  intro hmem
  exact absurd (h.isAlphanum_or ',' hmem) (by decide)

/-- An item is left alone by trimming. -/
theorem trim_eq (h : ItemShape item) : trim item = item := by
  apply trim_eq_self
  intro c hc
  rcases h.isAlphanum_or c hc with halnum | rfl | rfl | rfl
  · exact isBlank_of_isAlphanum halnum
  · decide
  · decide
  · decide

end ItemShape

/-! ### Lists -/

theorem listShape_iff : ListShape text ↔ ∀ item ∈ text.splitOn ',', ItemShape item :=
  (forall_mem_splitOn_iff fun _ h => h.comma_notMem).symm

/-- No item of a list is empty that has no stray commas. -/
theorem Field.forM_checkListed (field : Field) (hne : text ≠ []) (h : ¬ HasStray ',' text) :
    (text.splitOn ',').forM field.checkListed = (text.splitOn ',').forM field.checkItem := by
  apply forM_congr
  intro item hitem
  refine if_neg ?_
  rw [List.isEmpty_iff]
  rintro rfl
  exact h ((nil_mem_splitOn_iff hne).mp hitem)

/-- The check looks at the items of a text in this shape one by one, and at nothing else. -/
theorem ListShape.check_eq_forM (field : Field) (h : ListShape text) :
    field.check text = (text.splitOn ',').forM field.checkItem := by
  rw [listShape_iff] at h
  have hne : text ≠ [] := by
    rintro rfl
    exact (h [] (by simp)).ne_nil rfl
  have hlegal : (text.find? fun c => !Field.admitsChar c) = none := by
    rw [List.find?_eq_none]
    intro c hc
    rcases eq_or_mem_splitOn ',' hc with rfl | ⟨item, hitem, hmem⟩
    · decide
    · simp [(h item hitem).admitsChar c hmem]
  have hstray : ¬ HasStray ',' text := by
    rw [← nil_mem_splitOn_iff hne]
    exact fun hnil => (h [] hnil).ne_nil rfl
  rw [Field.check, if_neg (mt List.isEmpty_iff.mp hne), hlegal, ← field.forM_checkListed hne hstray]
  exact if_neg (mt hasStray_iff.mp hstray)

end Cron
