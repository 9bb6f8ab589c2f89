/-
  Cron/Text/Cut.lean
  ==================
  **Separators: cutting a text at the first, and finding stray ones.**

  An item is cut at its first slash and a range at its first hyphen; whatever
  separators follow stay in the second part, where they are somebody's fault.  A
  separator that leads a text, trails it or follows another has nothing to separate.
-/

namespace Cron.Text

/-! ### Cutting -/

/-- The parts before and after the first `sep`, or nothing when there is none. -/
def cutAt? (sep : Char) (s : List Char) : Option (List Char × List Char) :=
  match s.dropWhile (· != sep) with
  | [] => none
  | _ :: rest => some (s.takeWhile (· != sep), rest)

/-- A first part free of the separator is the part before the cut. -/
theorem cutAt?_append {sep : Char} {first : List Char} (rest : List Char) (h : sep ∉ first) :
    cutAt? sep (first ++ sep :: rest) = some (first, rest) := by
  have hne : ∀ c ∈ first, (c != sep) = true := fun c hc => by
    simpa using fun heq : c = sep => h (heq ▸ hc)
  simp [cutAt?, List.dropWhile_append_of_pos hne, List.takeWhile_append_of_pos hne]

theorem cutAt?_eq_none_iff {sep : Char} {s : List Char} : cutAt? sep s = none ↔ sep ∉ s := by
  constructor
  case mp =>
    intro h hmem
    obtain ⟨first, rest, rfl, hfirst⟩ := List.eq_append_cons_of_mem hmem
    simp [cutAt?_append rest hfirst] at h
  case mpr =>
    intro h
    have hne : ∀ c ∈ s, (c != sep) = true := fun c hc => by
      simpa using fun heq : c = sep => h (heq ▸ hc)
    have hnil : (s ++ []).dropWhile (· != sep) = [] := by
      rw [List.dropWhile_append_of_pos hne, List.dropWhile_nil]
    rw [List.append_nil] at hnil
    simp [cutAt?, hnil]

/-! ### Stray separators -/

/-- Whether a piece occurs anywhere in a text. -/
def occursIn (piece : List Char) : (s : List Char) → Bool
  | [] => piece.isEmpty
  | c :: s => piece.isPrefixOf (c :: s) || occursIn piece s

theorem occursIn_iff {piece s : List Char} : occursIn piece s = true ↔ piece <:+: s := by
  induction s with
  | nil => rw [occursIn, List.isEmpty_iff, List.infix_nil]
  | cons c s ih =>
    rw [occursIn, Bool.or_eq_true, List.isPrefixOf_iff_prefix, ih, List.infix_cons_iff]

/-- Whether a separator leads, trails, or follows another one. -/
def hasStray (sep : Char) (s : List Char) : Bool :=
  [sep].isPrefixOf s || [sep].isSuffixOf s || occursIn [sep, sep] s

end Cron.Text
