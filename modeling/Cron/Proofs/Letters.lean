/-
  Cron/Proofs/Letters.lean
  ========================
  **Texts in lower case.**

  Words are told apart, cut and split by signs, digits and blanks, and none of these is a
  letter.  So a text can be put into lower case before it is taken apart or afterwards:
  its words, its parts and its numerals are the same.  Case is a matter of the letters of
  ASCII; any other letter is left as it is.
-/
import Cron.Proofs.Text
import Mathlib.Data.List.Forall2

namespace Cron.Text

/-- A text with its letters in lower case. -/
def lower (s : List Char) : List Char := s.map Char.toLower

/-- Two words are spelled alike when they differ in the case of letters at most. -/
def SpelledAlike (word other : List Char) : Prop := lower word = lower other

instance (word other : List Char) : Decidable (SpelledAlike word other) :=
  inferInstanceAs (Decidable (_ = _))

/-! ### Characters -/

theorem toLower_of_not_isAlpha {c : Char} (h : c.isAlpha = false) : c.toLower = c := by
  apply toLower_of_not_isUpper
  intro hupper
  rw [isAlpha_iff.mpr (Or.inl hupper)] at h
  cases h

/-- The small letters come 32 places after the capitals. -/
theorem toNat_toLower_of_isUpper {c : Char} (h : c.isUpper = true) :
    c.toLower.toNat = c.toNat + 32 := by
  have hletter : 'A'.val ≤ c.val ∧ c.val ≤ 'Z'.val := of_decide_eq_true h
  have hhigh : c.toNat ≤ 90 := hletter.2
  have hval : c.toLower.val = c.val + 32 := congrArg Char.val (dif_pos hletter)
  change c.toLower.val.toNat = c.val.toNat + 32
  rw [hval, UInt32.toNat_add]
  exact Nat.mod_eq_of_lt (Nat.lt_of_le_of_lt (Nat.add_le_add_right hhigh 32) (by decide))

theorem isLower_toLower_of_isUpper {c : Char} (h : c.isUpper = true) :
    c.toLower.isLower = true := by
  obtain ⟨hlow, hhigh⟩ := isUpper_iff.mp h
  change 65 ≤ c.toNat at hlow
  change c.toNat ≤ 90 at hhigh
  have hcode := toNat_toLower_of_isUpper h
  have hbounds : 97 ≤ c.toLower.toNat ∧ c.toLower.toNat ≤ 122 := by omega
  exact isLower_iff.mpr hbounds

theorem isAlpha_toLower {c : Char} (h : c.isAlpha = true) : c.toLower.isAlpha = true := by
  by_cases hupper : c.isUpper = true
  · exact isAlpha_iff.mpr (Or.inr (isLower_toLower_of_isUpper hupper))
  · rwa [toLower_of_not_isUpper hupper]

theorem toLower_toLower (c : Char) : c.toLower.toLower = c.toLower := by
  by_cases hupper : c.isUpper = true
  · -- a small letter is no capital
    have hlow : 'a' ≤ c.toLower := (isLower_iff.mp (isLower_toLower_of_isUpper hupper)).1
    apply toLower_of_not_isUpper
    intro hstill
    exact absurd (Char.le_trans hlow (isUpper_iff.mp hstill).2) (by decide)
  · rw [toLower_of_not_isUpper hupper, toLower_of_not_isUpper hupper]

/-- A test that gives one answer for all letters does not see their case. -/
theorem test_toLower {p : Char → Bool} {answer : Bool}
    (h : ∀ letter, letter.isAlpha = true → p letter = answer) (c : Char) :
    p c.toLower = p c := by
  cases halpha : c.isAlpha with
  | false => rw [toLower_of_not_isAlpha halpha]
  | true =>
    rw [h c halpha, h c.toLower (isAlpha_toLower halpha)]

theorem isAlphanum_of_isAlpha {c : Char} (h : c.isAlpha = true) : c.isAlphanum = true := by
  rw [Char.isAlphanum, h, Bool.true_or]

theorem isDigit_of_isAlpha {c : Char} (h : c.isAlpha = true) : c.isDigit = false := by
  rw [isAlpha_iff, isUpper_iff, isLower_iff] at h
  have hlow : 'A' ≤ c := by
    rcases h with ⟨hlow, _⟩ | ⟨hlow, _⟩
    · exact hlow
    · exact Char.le_trans (by decide) hlow
  rw [Bool.eq_false_iff, Ne, isDigit_iff]
  rintro ⟨_, hhigh⟩
  exact absurd (Char.le_trans hlow hhigh) (by decide)

theorem isBlank_toLower : ∀ c, isBlank (Char.toLower c) = isBlank c :=
  test_toLower fun _ h => isBlank_of_isAlphanum (isAlphanum_of_isAlpha h)

theorem isDigit_toLower : ∀ c, (Char.toLower c).isDigit = c.isDigit :=
  test_toLower fun _ h => isDigit_of_isAlpha h

/-- A sign is written in one way only. -/
theorem beq_toLower {sign : Char} (h : sign.isAlpha = false) :
    ∀ c, (Char.toLower c == sign) = (c == sign) := by
  apply test_toLower (p := (· == sign))
  intro letter hletter
  rw [beq_eq_false_iff_ne]
  rintro rfl
  rw [hletter] at h
  cases h

/-! ### Texts that are taken apart -/

section Tests

variable {p : Char → Bool} (h : ∀ c, p (Char.toLower c) = p c) (s : List Char)
include h

theorem comp_toLower : p ∘ Char.toLower = p := funext h

theorem dropWhile_lower : (lower s).dropWhile p = lower (s.dropWhile p) := by
  rw [lower, List.dropWhile_map, comp_toLower h, lower]

theorem takeWhile_lower : (lower s).takeWhile p = lower (s.takeWhile p) := by
  rw [lower, List.takeWhile_map, comp_toLower h, lower]

theorem splitOnP_lower : (lower s).splitOnP p = (s.splitOnP p).map lower := by
  induction s with
  | nil => rfl
  | cons c s ih =>
    change (c.toLower :: lower s).splitOnP p = _
    rw [List.splitOnP_cons_eq_if_modifyHead, List.splitOnP_cons_eq_if_modifyHead, h, ih]
    by_cases hc : p c = true
    · rw [if_pos hc, if_pos hc]
      rfl
    · -- the character joins the first part, before it is put into lower case or after
      rw [if_neg hc, if_neg hc]
      cases s.splitOnP p with
      | nil => rfl
      | cons first rest => rfl

end Tests

theorem lower_lower (s : List Char) : lower (lower s) = lower s := by
  rw [lower, lower, List.map_map]
  exact List.map_congr_left fun c _ => toLower_toLower c

theorem isEmpty_lower (s : List Char) : (lower s).isEmpty = s.isEmpty := by
  simp [lower]

theorem words_lower (s : List Char) : words (lower s) = (words s).map lower := by
  have hempty : (fun word : List Char => !word.isEmpty) ∘ lower = fun word => !word.isEmpty := by
    funext word
    rw [Function.comp, isEmpty_lower]
  rw [words, splitOnP_lower isBlank_toLower, List.filter_map, hempty, words]

theorem trim_lower (s : List Char) : trim (lower s) = lower (trim s) := by
  have hstart (s : List Char) : trimStart (lower s) = lower (trimStart s) :=
    dropWhile_lower isBlank_toLower s
  have hreverse (s : List Char) : (lower s).reverse = lower s.reverse := List.map_reverse.symm
  change (trimStart (trimStart (lower s)).reverse).reverse =
    lower (trimStart (trimStart s).reverse).reverse
  rw [hstart, hreverse, hstart, hreverse]

theorem splitOn_lower {sign : Char} (h : sign.isAlpha = false) (s : List Char) :
    (lower s).splitOn sign = (s.splitOn sign).map lower :=
  splitOnP_lower (beq_toLower h) s

theorem hasStray_lower {sign : Char} (h : sign.isAlpha = false) (s : List Char) :
    hasStray sign (lower s) = hasStray sign s := by
  rw [Bool.eq_iff_iff, hasStray_iff, hasStray_iff]
  by_cases hnil : s = []
  · rw [hnil]
    rfl
  · have hne : lower s ≠ [] := by simpa [lower] using hnil
    rw [← nil_mem_splitOn_iff hne, ← nil_mem_splitOn_iff hnil, splitOn_lower h, List.mem_map]
    simp [lower]

theorem cutAt?_lower {sign : Char} (h : sign.isAlpha = false) (s : List Char) :
    cutAt? sign (lower s) = (cutAt? sign s).map (Prod.map lower lower) := by
  have hne : ∀ c, (Char.toLower c != sign) = (c != sign) := by
    intro c
    rw [bne, beq_toLower h, bne]
  rw [cutAt?, dropWhile_lower hne, takeWhile_lower hne, cutAt?]
  cases s.dropWhile (· != sign) with
  | nil => rfl
  | cons c rest => rfl

theorem lower_eq_star_iff {s : List Char} : lower s = ['*'] ↔ s = ['*'] := by
  rw [lower, List.map_eq_singleton_iff]
  constructor
  · rintro ⟨c, rfl, hc⟩
    have hstar : (Char.toLower c == '*') = (c == '*') := beq_toLower (by decide) c
    rw [hc] at hstar
    simpa using hstar
  · rintro rfl
    exact ⟨'*', rfl, rfl⟩

/-! ### Numerals -/

theorem isDigits_lower (s : List Char) : isDigits (lower s) = isDigits s := by
  rw [isDigits, isEmpty_lower, lower, List.all_map, comp_toLower isDigit_toLower, isDigits]

theorem lower_of_isDigits {s : List Char} (h : isDigits s = true) : lower s = s := by
  rw [lower, List.map_congr_left fun c hc => toLower_of_isDigit (isDigit_of_isDigits h c hc)]
  exact List.map_id' s

theorem literal?_lower (s : List Char) : literal? (lower s) = literal? s := by
  cases hdigits : isDigits s with
  | true => rw [lower_of_isDigits hdigits]
  | false =>
    rw [literal?, isDigits_lower, literal?, hdigits]
    rfl

/-! ### Strings -/

theorem toList_toLower (text : String) : text.toLower.toList = lower text.toList :=
  String.toList_map

theorem toLower_ofList (s : List Char) : (String.ofList s).toLower = String.ofList (lower s) := by
  apply String.toList_injective
  rw [toList_toLower, String.toList_ofList, String.toList_ofList]

theorem words_toLower (text : String) :
    words text.toLower.toList = (words text.toList).map lower := by
  rw [toList_toLower, words_lower]

/-- Texts whose words are spelled alike have the same words in lower case. -/
theorem words_toLower_eq {left right : String}
    (h : List.Forall₂ SpelledAlike (words left.toList) (words right.toList)) :
    words left.toLower.toList = words right.toLower.toList := by
  rw [words_toLower, words_toLower, ← List.forall₂_eq_eq_eq, List.forall₂_map_left_iff,
    List.forall₂_map_right_iff]
  exact h

end Cron.Text
