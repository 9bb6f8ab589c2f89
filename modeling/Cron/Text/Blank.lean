/-
  Cron/Text/Blank.lean
  ====================
  **Blank characters, and the words that they separate.**

  Words are written apart by runs of blanks, and a blank is any character that
  Unicode lists under `White_Space`: tabs and line breaks as much as the wide
  spaces of typesetting.  Nothing invisible beyond that list separates words.
  A zero-width space or a byte order mark is an ordinary, if illegal, character
  of the word it stands in.

  Trimming a text takes the blanks from its ends.  It loses no word (`words_trim`),
  and there is nothing left to trim afterwards (`trim_trim`).
-/

namespace Cron.Text

/-! ### The blank characters -/

/-- The `White_Space` characters of Unicode, as closed intervals of code points. -/
def blankIntervals : List (Nat × Nat) :=
  [(0x09, 0x0D), (0x20, 0x20), (0x85, 0x85), (0xA0, 0xA0), (0x1680, 0x1680),
   (0x2000, 0x200A), (0x2028, 0x2029), (0x202F, 0x202F), (0x205F, 0x205F),
   (0x3000, 0x3000)]

def isBlank (c : Char) : Bool :=
  blankIntervals.any fun interval => interval.1 ≤ c.toNat && c.toNat ≤ interval.2

/-! ### Trimming and splitting -/

/-- The text from its first character that is not blank. -/
def trimStart (s : List Char) : List Char := s.dropWhile isBlank

/-- The text up to its last character that is not blank. -/
def trimEnd (s : List Char) : List Char := (s.reverse.dropWhile isBlank).reverse

/-- The text without the blanks at its two ends. -/
def trim (s : List Char) : List Char := trimEnd (trimStart s)

/-- The maximal blank-free stretches of a text, from left to right. -/
def words (s : List Char) : List (List Char) :=
  (s.splitOnP isBlank).filter fun word => !word.isEmpty

theorem ne_nil_of_mem_words {s word : List Char} (h : word ∈ words s) : word ≠ [] := by
  rintro rfl
  simp [words] at h

/-! ### Words -/

theorem words_nil : words [] = [] := by simp [words]

theorem words_cons_ne_nil {c : Char} (s : List Char) (h : isBlank c = false) :
    words (c :: s) ≠ [] := by
  obtain ⟨first, parts, hsplit⟩ := List.exists_cons_of_ne_nil (List.splitOnP_ne_nil isBlank s)
  simp [words, List.splitOnP_cons_eq_if_modifyHead, h, hsplit]

theorem words_append_cons {blank : Char} (s rest : List Char) (h : isBlank blank = true) :
    words (s ++ blank :: rest) = words s ++ words rest := by
  simp only [words, List.splitOnP_append_cons _ _ h, List.filter_append]

theorem words_trimStart (s : List Char) : words (trimStart s) = words s := by
  unfold trimStart
  induction s with
  | nil => rfl
  | cons c s ih =>
    rw [List.dropWhile_cons]
    split
    case isTrue h =>
      have hsplit := words_append_cons [] s h
      rw [List.nil_append, words_nil, List.nil_append] at hsplit
      rw [ih, hsplit]
    case isFalse => rfl

theorem words_trimEnd (s : List Char) : words (trimEnd s) = words s := by
  unfold trimEnd
  induction hr : s.reverse generalizing s with
  | nil =>
    rw [List.reverse_eq_nil_iff.mp hr]
    rfl
  | cons c r ih =>
    have hs : s = r.reverse ++ [c] := by rw [← List.reverse_cons, ← hr, List.reverse_reverse]
    rw [List.dropWhile_cons]
    split
    case isTrue h =>
      rw [ih r.reverse (List.reverse_reverse r), hs, words_append_cons _ _ h, words_nil,
        List.append_nil]
    case isFalse => rw [List.reverse_cons, hs]

theorem words_trim (s : List Char) : words (trim s) = words s := by
  rw [trim, words_trimEnd, words_trimStart]

/-! ### Trimming -/

/-- What trimming leaves does not start with a blank. -/
theorem isBlank_of_trimStart_eq_cons {c : Char} {s rest : List Char}
    (h : trimStart s = c :: rest) : isBlank c = false := by
  have hhead := List.head?_dropWhile_not isBlank s
  rw [← trimStart, h] at hhead
  exact hhead

theorem trimStart_trimStart (s : List Char) : trimStart (trimStart s) = trimStart s := by
  unfold trimStart
  induction s with
  | nil => rfl
  | cons c s ih =>
    rw [List.dropWhile_cons]
    split
    case isTrue => exact ih
    case isFalse h => rw [List.dropWhile_cons, if_neg h]

theorem trimEnd_trimEnd (s : List Char) : trimEnd (trimEnd s) = trimEnd s := by
  have h := trimStart_trimStart s.reverse
  unfold trimStart at h
  rw [trimEnd, trimEnd, List.reverse_reverse, h]

/-- A first character that is not blank stays where it is. -/
theorem trimEnd_cons {c : Char} (s : List Char) (h : isBlank c = false) :
    trimEnd (c :: s) = c :: trimEnd s := by
  unfold trimEnd
  rw [List.reverse_cons, List.dropWhile_append]
  split
  case isTrue hnil =>
    rw [List.isEmpty_iff.mp hnil]
    simp [h]
  case isFalse => simp

theorem trimStart_trim (s : List Char) : trimStart (trim s) = trim s := by
  unfold trim
  cases ht : trimStart s with
  | nil => rfl
  | cons c rest =>
    have hc := isBlank_of_trimStart_eq_cons ht
    rw [trimEnd_cons rest hc, trimStart, List.dropWhile_cons, hc]
    rfl

theorem trim_trim (s : List Char) : trim (trim s) = trim s := by
  rw [trim, trimStart_trim]
  exact trimEnd_trimEnd (trimStart s)

/-- A text is trimmed away when it has no words. -/
theorem trim_eq_nil_iff {s : List Char} : trim s = [] ↔ words s = [] := by
  constructor
  case mp =>
    intro h
    rw [← words_trim, h, words_nil]
  case mpr =>
    intro h
    have hstart := trimStart_trim s
    rw [← words_trim] at h
    cases ht : trim s with
    | nil => rfl
    | cons c rest =>
      rw [ht] at h hstart
      exact absurd h (words_cons_ne_nil rest (isBlank_of_trimStart_eq_cons hstart))

end Cron.Text
