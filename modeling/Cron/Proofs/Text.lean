/-
  Cron/Proofs/Text.lean
  =====================
  **Cutting, splitting and trimming, as equations between texts.**

  A text is cut into two parts, or split into many, exactly when it is those parts with
  the separator between them.  A text without blanks is left alone by trimming, and the
  words of a text are such texts.  They are the only ones from which it can be written
  with blanks around them (`words_eq_iff`).  Letters keep their kind when their case is
  changed.
-/
import Cron.Text.Blank
import Cron.Text.Cut
import Cron.Text.Decimal

namespace Cron.Text

/-! ### Cutting and splitting -/

theorem cutAt?_eq_some_iff {sep : Char} {s first rest : List Char} :
    cutAt? sep s = some (first, rest) ↔ s = first ++ sep :: rest ∧ sep ∉ first := by
  constructor
  · intro h
    by_cases hmem : sep ∈ s
    · obtain ⟨before, after, rfl, hbefore⟩ := List.eq_append_cons_of_mem hmem
      rw [cutAt?_append after hbefore] at h
      cases h
      exact ⟨rfl, hbefore⟩
    · rw [cutAt?_eq_none_iff.mpr hmem] at h
      cases h
  · rintro ⟨rfl, hfirst⟩
    exact cutAt?_append rest hfirst

theorem mem_intercalate_iff {sep c : Char} {parts : List (List Char)} :
    c ∈ [sep].intercalate parts ↔
      (∃ part ∈ parts, c ∈ part) ∨ c = sep ∧ 1 < parts.length := by
  induction parts with
  | nil => simp
  | cons first parts ih =>
    by_cases hparts : parts = []
    · simp [hparts]
    · have hlength : 0 < parts.length := List.length_pos_iff.mpr hparts
      rw [List.intercalate_cons_of_ne_nil hparts, List.mem_append, List.mem_append,
        List.mem_singleton, ih]
      simp only [List.mem_cons, exists_eq_or_imp, List.length_cons]
      constructor
      · rintro ((hfirst | rfl) | hpart | ⟨rfl, _⟩)
        · exact Or.inl (Or.inl hfirst)
        · exact Or.inr ⟨rfl, Nat.succ_lt_succ hlength⟩
        · exact Or.inl (Or.inr hpart)
        · exact Or.inr ⟨rfl, Nat.succ_lt_succ hlength⟩
      · rintro ((hfirst | hpart) | ⟨rfl, _⟩)
        · exact Or.inl (Or.inl hfirst)
        · exact Or.inr (Or.inl hpart)
        · exact Or.inl (Or.inr rfl)

theorem eq_or_mem_splitOn {c : Char} {s : List Char} (sep : Char) (h : c ∈ s) :
    c = sep ∨ ∃ part ∈ s.splitOn sep, c ∈ part := by
  have hjoin : [sep].intercalate (s.splitOn sep) = s := List.intercalate_splitOn sep
  rw [← hjoin] at h
  rcases mem_intercalate_iff.mp h with hpart | ⟨hsep, _⟩
  · exact Or.inr hpart
  · exact Or.inl hsep

theorem eq_false_of_mem_splitOnP {p : Char → Bool} (s : List Char) :
    ∀ part ∈ s.splitOnP p, ∀ c ∈ part, p c = false := by
  induction s with
  | nil => simp
  | cons first s ih =>
    rw [List.splitOnP_cons_eq_if_modifyHead]
    by_cases hfirst : p first = true
    · rw [if_pos hfirst, List.forall_mem_cons]
      exact ⟨fun c hc => absurd hc List.not_mem_nil, ih⟩
    · -- the first character joins the first part of the rest
      obtain ⟨head, parts, hsplit⟩ := List.exists_cons_of_ne_nil (List.splitOnP_ne_nil p s)
      rw [hsplit, List.forall_mem_cons] at ih
      rw [if_neg hfirst, hsplit, List.modifyHead_cons, List.forall_mem_cons, List.forall_mem_cons]
      exact ⟨⟨Bool.eq_false_iff.mpr hfirst, ih.1⟩, ih.2⟩

/-- A text is split into the parts that it joins, when none of them holds the separator. -/
theorem splitOn_eq_iff {sep : Char} {s : List Char} {parts : List (List Char)}
    (hne : parts ≠ []) :
    s.splitOn sep = parts ↔ s = [sep].intercalate parts ∧ ∀ part ∈ parts, sep ∉ part := by
  constructor
  · rintro rfl
    refine ⟨(List.intercalate_splitOn sep).symm, ?_⟩
    intro part hpart hmem
    have hsep := eq_false_of_mem_splitOnP s part hpart sep hmem
    simp at hsep
  · rintro ⟨rfl, hparts⟩
    exact List.splitOn_intercalate sep hparts hne

/-- The parts of a text have a property that keeps them free of the separator exactly when
    the text joins parts that have it. -/
theorem forall_mem_splitOn_iff {sep : Char} {s : List Char} {p : List Char → Prop}
    (h : ∀ part, p part → sep ∉ part) :
    (∀ part ∈ s.splitOn sep, p part) ↔
      ∃ parts, parts ≠ [] ∧ s = [sep].intercalate parts ∧ ∀ part ∈ parts, p part := by
  constructor
  · intro hparts
    exact ⟨s.splitOn sep, List.splitOn_ne_nil _ _, (List.intercalate_splitOn sep).symm, hparts⟩
  · rintro ⟨parts, hne, hjoin, hparts⟩
    rw [(splitOn_eq_iff hne).mpr ⟨hjoin, fun part hpart => h part (hparts part hpart)⟩]
    exact hparts

theorem splitOn_eq_singleton_iff {sep : Char} {s part : List Char} :
    s.splitOn sep = [part] ↔ s = part ∧ sep ∉ part := by
  rw [splitOn_eq_iff (List.cons_ne_nil _ _)]
  simp

theorem splitOn_eq_pair_iff {sep : Char} {s first last : List Char} :
    s.splitOn sep = [first, last] ↔ s = first ++ sep :: last ∧ sep ∉ first ∧ sep ∉ last := by
  rw [splitOn_eq_iff (List.cons_ne_nil _ _)]
  simp

/-- A part is a piece of the text that it is a part of. -/
theorem infix_of_mem_splitOn {sep : Char} {s part : List Char} (h : part ∈ s.splitOn sep) :
    part <:+: s := by
  have hjoin : [sep].intercalate (s.splitOn sep) = s := List.intercalate_splitOn sep
  rw [← hjoin]
  generalize s.splitOn sep = parts at h
  induction parts with
  | nil => exact absurd h List.not_mem_nil
  | cons first parts ih =>
    by_cases hnil : parts = []
    · rw [hnil, List.mem_singleton] at h
      simp [hnil, h]
    · rw [List.intercalate_cons_of_ne_nil hnil]
      rcases List.mem_cons.mp h with rfl | hmem
      · exact ⟨[], [sep] ++ [sep].intercalate parts, by simp⟩
      · exact (ih hmem).trans (List.suffix_append _ _).isInfix

theorem intercalate_append {sep : Char} {before after : List (List Char)} (hbefore : before ≠ [])
    (hafter : after ≠ []) :
    [sep].intercalate (before ++ after) =
      [sep].intercalate before ++ sep :: [sep].intercalate after := by
  induction before with
  | nil => exact absurd rfl hbefore
  | cons first before ih =>
    have happend : before ++ after ≠ [] := List.append_ne_nil_of_right_ne_nil _ hafter
    rw [List.cons_append, List.intercalate_cons_of_ne_nil happend]
    by_cases hnil : before = []
    · simp [hnil]
    · rw [ih hnil, List.intercalate_cons_of_ne_nil hnil]
      simp

/-- A separator is stray when it leads, trails, or follows another one. -/
def HasStray (sep : Char) (s : List Char) : Prop :=
  (∃ rest, s = sep :: rest) ∨ (∃ rest, s = rest ++ [sep]) ∨
    ∃ before after, s = before ++ sep :: sep :: after

theorem hasStray_iff {sep : Char} {s : List Char} : hasStray sep s = true ↔ HasStray sep s := by
  rw [hasStray, Bool.or_eq_true, Bool.or_eq_true, List.isPrefixOf_iff_prefix,
    List.isSuffixOf_iff_suffix, occursIn_iff]
  simp [HasStray, List.IsPrefix, List.IsSuffix, List.IsInfix, eq_comm, or_assoc]

/-- Stray separators are what makes parts empty. -/
theorem nil_mem_splitOn_iff {sep : Char} {s : List Char} (hne : s ≠ []) :
    [] ∈ s.splitOn sep ↔ HasStray sep s := by
  constructor
  · intro h
    have hjoin : [sep].intercalate (s.splitOn sep) = s := List.intercalate_splitOn sep
    obtain ⟨before, after, hsplit⟩ := List.append_of_mem h
    rw [hsplit] at hjoin
    -- the empty part comes first, last, or between two others
    by_cases hbefore : before = []
    · by_cases hafter : after = []
      · simp [hbefore, hafter] at hjoin
        exact absurd hjoin hne
      · rw [hbefore, List.nil_append, List.intercalate_cons_of_ne_nil hafter] at hjoin
        exact Or.inl ⟨_, hjoin.symm⟩
    · rw [intercalate_append hbefore (List.cons_ne_nil _ _)] at hjoin
      by_cases hafter : after = []
      · rw [hafter, List.intercalate_singleton] at hjoin
        exact Or.inr (Or.inl ⟨_, hjoin.symm⟩)
      · rw [List.intercalate_cons_of_ne_nil hafter] at hjoin
        exact Or.inr (Or.inr ⟨_, _, hjoin.symm⟩)
  · rintro (⟨rest, rfl⟩ | ⟨rest, rfl⟩ | ⟨before, after, rfl⟩)
    · rw [← List.nil_append (sep :: rest), List.splitOn_append_cons_self]
      simp
    · rw [List.splitOn_append_cons_self]
      simp
    · rw [List.splitOn_append_cons_self, ← List.nil_append (sep :: after),
        List.splitOn_append_cons_self]
      simp

/-! ### Blanks -/

theorem isBlank_of_mem_words {s word : List Char} (h : word ∈ words s) :
    ∀ c ∈ word, isBlank c = false :=
  eq_false_of_mem_splitOnP s word (List.mem_filter.mp h).1

theorem trimStart_eq_self {s : List Char} (h : ∀ c ∈ s, isBlank c = false) : trimStart s = s := by
  unfold trimStart
  cases s with
  | nil => rfl
  | cons c s => exact List.dropWhile_cons_of_neg (Bool.eq_false_iff.mp (h c List.mem_cons_self))

/-- There is nothing to trim where nothing is blank. -/
theorem trim_eq_self {s : List Char} (h : ∀ c ∈ s, isBlank c = false) : trim s = s := by
  have hreverse := trimStart_eq_self fun c hc => h c (List.mem_reverse.mp hc)
  rw [trim, trimStart_eq_self h]
  change (trimStart s.reverse).reverse = s
  rw [hreverse, List.reverse_reverse]

/-! ### Words -/

/-- A text is written as a list of words: blanks may stand before the first word and after
    the last, and some do stand between any two.  A word is not empty and holds no blank. -/
inductive WrittenAs : List Char → List (List Char) → Prop where
  | nil {gap : List Char} (hgap : ∀ c ∈ gap, isBlank c = true) : WrittenAs gap []
  | cons {gap word rest : List Char} {others : List (List Char)}
    (hgap : ∀ c ∈ gap, isBlank c = true) (hne : word ≠ [])
    (hword : ∀ c ∈ word, isBlank c = false) (hsep : ∀ c ∈ rest.head?, isBlank c = true)
    (hrest : WrittenAs rest others) : WrittenAs (gap ++ (word ++ rest)) (word :: others)

/-- A word may open a text. -/
theorem WrittenAs.cons_word {word rest : List Char} {others : List (List Char)} (hne : word ≠ [])
    (hword : ∀ c ∈ word, isBlank c = false) (hsep : ∀ c ∈ rest.head?, isBlank c = true)
    (hrest : WrittenAs rest others) : WrittenAs (word ++ rest) (word :: others) :=
  WrittenAs.cons (List.forall_mem_nil _) hne hword hsep hrest

theorem words_cons {blank : Char} (s : List Char) (h : isBlank blank = true) :
    words (blank :: s) = words s := by
  simpa [words_nil] using words_append_cons [] s h

/-- Leading blanks belong to no word. -/
theorem words_append {gap : List Char} (s : List Char) (h : ∀ c ∈ gap, isBlank c = true) :
    words (gap ++ s) = words s := by
  induction gap with
  | nil => rfl
  | cons c gap ih =>
    rw [List.forall_mem_cons] at h
    rw [List.cons_append, words_cons _ h.1]
    exact ih h.2

theorem words_eq_singleton {word : List Char} (hne : word ≠ [])
    (h : ∀ c ∈ word, isBlank c = false) : words word = [word] := by
  simp [words, List.splitOnP_eq_singleton h, hne]

theorem WrittenAs.words_eq {s : List Char} {found : List (List Char)} (h : WrittenAs s found) :
    words s = found := by
  induction h with
  | nil hgap => simpa [words_nil] using words_append [] hgap
  | @cons gap word rest others hgap hne hword hsep hrest ih =>
    rw [words_append _ hgap]
    cases rest with
    | nil =>
      rw [List.append_nil, words_eq_singleton hne hword, ← ih, words_nil]
    | cons blank rest =>
      have hblank : isBlank blank = true := hsep blank rfl
      rw [words_append_cons _ _ hblank, words_eq_singleton hne hword, ← ih, words_cons _ hblank]
      rfl

theorem exists_writtenAs (s : List Char) : ∃ found, WrittenAs s found := by
  induction s with
  | nil => exact ⟨[], WrittenAs.nil (by simp)⟩
  | cons c s ih =>
    obtain ⟨found, h⟩ := ih
    by_cases hc : isBlank c = true
    · -- a blank makes the first gap longer
      refine ⟨found, ?_⟩
      cases h with
      | nil hgap => exact WrittenAs.nil (List.forall_mem_cons.mpr ⟨hc, hgap⟩)
      | cons hgap hne hword hsep hrest =>
        exact WrittenAs.cons (List.forall_mem_cons.mpr ⟨hc, hgap⟩) hne hword hsep hrest
    · -- any other character joins the first word, unless blanks stand before that
      rw [Bool.not_eq_true] at hc
      have hletter : ∀ d ∈ [c], isBlank d = false := by simpa using hc
      cases h with
      | nil hgap =>
        refine ⟨[[c]], WrittenAs.cons_word (by simp) hletter ?_ (WrittenAs.nil hgap)⟩
        intro d hd
        exact hgap d (List.mem_of_head? hd)
      | @cons gap word rest others hgap hne hword hsep hrest =>
        cases gap with
        | nil =>
          have hlonger : ∀ d ∈ c :: word, isBlank d = false :=
            List.forall_mem_cons.mpr ⟨hc, hword⟩
          exact ⟨(c :: word) :: others, WrittenAs.cons_word (by simp) hlonger hsep hrest⟩
        | cons d gap =>
          have hafter := WrittenAs.cons hgap hne hword hsep hrest
          refine ⟨[c] :: word :: others, WrittenAs.cons_word (by simp) hletter ?_ hafter⟩
          intro e he
          cases he
          exact hgap d List.mem_cons_self

/-- Only blanks are written as no word at all. -/
theorem writtenAs_nil_iff {s : List Char} :
    WrittenAs s [] ↔ ∀ c ∈ s, isBlank c = true := by
  constructor
  · intro h
    cases h with
    | nil hgap => exact hgap
  · exact WrittenAs.nil

/-- The words of a text are the one list that it is written as. -/
theorem words_eq_iff {s : List Char} {found : List (List Char)} :
    words s = found ↔ WrittenAs s found := by
  constructor
  · rintro rfl
    obtain ⟨found, h⟩ := exists_writtenAs s
    rw [h.words_eq]
    exact h
  · intro h
    exact h.words_eq

/-! ### Letters and digits -/

theorem isDigit_iff {c : Char} : c.isDigit = true ↔ '0' ≤ c ∧ c ≤ '9' := by
  change (decide ('0' ≤ c) && decide (c ≤ '9')) = true ↔ _
  simp

theorem isLower_iff {c : Char} : c.isLower = true ↔ 'a' ≤ c ∧ c ≤ 'z' := by
  change (decide ('a' ≤ c) && decide (c ≤ 'z')) = true ↔ _
  simp

theorem isUpper_iff {c : Char} : c.isUpper = true ↔ 'A' ≤ c ∧ c ≤ 'Z' := by
  change decide ('A' ≤ c ∧ c ≤ 'Z') = true ↔ _
  simp

theorem isAlpha_iff {c : Char} : c.isAlpha = true ↔ c.isUpper = true ∨ c.isLower = true := by
  change (c.isUpper || c.isLower) = true ↔ _
  rw [Bool.or_eq_true]

/-- Only the letters and digits of ASCII count. -/
theorem isAlphanum_iff {c : Char} :
    c.isAlphanum = true ↔
      ('0' ≤ c ∧ c ≤ '9') ∨ ('A' ≤ c ∧ c ≤ 'Z') ∨ ('a' ≤ c ∧ c ≤ 'z') := by
  change ((c.isUpper || c.isLower) || c.isDigit) = true ↔ _
  rw [Bool.or_eq_true, Bool.or_eq_true, isDigit_iff, isLower_iff, isUpper_iff, or_comm]

theorem isBlank_of_isAlphanum {c : Char} (h : c.isAlphanum = true) : isBlank c = false := by
  have hbounds : '0' ≤ c ∧ c ≤ 'z' := by
    rcases isAlphanum_iff.mp h with ⟨hlow, hhigh⟩ | ⟨hlow, hhigh⟩ | ⟨hlow, hhigh⟩
    · exact ⟨hlow, Char.le_trans hhigh (by decide)⟩
    · exact ⟨Char.le_trans (by decide) hlow, Char.le_trans hhigh (by decide)⟩
    · exact ⟨Char.le_trans (by decide) hlow, hhigh⟩
  have hlow : 48 ≤ c.toNat := hbounds.1
  have hhigh : c.toNat ≤ 122 := hbounds.2
  simp [isBlank, blankIntervals]
  omega

theorem toLower_of_not_isUpper {c : Char} (h : ¬ c.isUpper = true) : c.toLower = c :=
  dif_neg fun hupper => h (decide_eq_true hupper)

theorem isAlphanum_of_toLower {c : Char} (h : c.toLower.isAlphanum = true) :
    c.isAlphanum = true := by
  by_cases hupper : c.isUpper = true
  · change (c.isUpper || c.isLower || c.isDigit) = true
    rw [hupper, Bool.true_or, Bool.true_or]
  · rwa [toLower_of_not_isUpper hupper] at h

theorem toLower_of_isDigit {c : Char} (h : c.isDigit = true) : c.toLower = c := by
  refine toLower_of_not_isUpper fun hupper => ?_
  have hletter : 'A'.val ≤ c.val ∧ c.val ≤ 'Z'.val := of_decide_eq_true hupper
  have hdigit : c.val ≤ '9'.val := of_decide_eq_true (Bool.and_eq_true_iff.mp h).2
  exact absurd (UInt32.le_trans hletter.1 hdigit) (by decide)

theorem isDigit_of_isDigits {s : List Char} (h : isDigits s = true) :
    ∀ c ∈ s, c.isDigit = true := by
  rw [isDigits, Bool.and_eq_true, List.all_eq_true] at h
  exact h.2

theorem isAlphanum_of_isDigits {s : List Char} (h : isDigits s = true) :
    ∀ c ∈ s, c.isAlphanum = true := by
  intro c hc
  rw [Char.isAlphanum, isDigit_of_isDigits h c hc, Bool.or_true]

end Cron.Text
