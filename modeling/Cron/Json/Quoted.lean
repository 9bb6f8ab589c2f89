/-
  Cron/Json/Quoted.lean
  =====================
  **Strings between quotes.**

  A quoted string writes its quotes, backslashes and control characters as escapes
  and all else as it is.  What is read may also escape any other character: by one
  of the eight short escapes, or by the four hexadecimal digits of a UTF-16 unit, of
  which a character beyond the first plane takes a pair.

  A string that is only passed over is held to less.  Its units need not pair up.
-/
import Cron.Json.Reader

namespace Cron.Json

/-! ### Writing -/

/-- The characters with a short escape, and the letters of their escapes, in the
    order of their code points. -/
def shortEscapes : List (Char × Char) :=
  [('\x08', 'b'), ('\t', 't'), ('\n', 'n'), ('\x0c', 'f'), ('\r', 'r'), ('"', '"'),
   ('\\', '\\')]

def escape (c : Char) : List Char :=
  match shortEscapes.lookup c with
  | some letter => ['\\', letter]
  | none =>
    if c.toNat < 0x20 then
      ['\\', 'u', '0', '0', (c.toNat / 16).digitChar, (c.toNat % 16).digitChar]
    else [c]

def quote (s : List Char) : List Char := '"' :: s.flatMap escape ++ ['"']

/-! ### Reading escapes -/

def hexValue? (c : Char) : Option Nat :=
  if c.isDigit then some (c.toNat - '0'.toNat)
  else if 'a' ≤ c ∧ c ≤ 'f' then some (c.toNat - 'a'.toNat + 10)
  else if 'A' ≤ c ∧ c ≤ 'F' then some (c.toNat - 'A'.toNat + 10)
  else none

/-- Takes the four hexadecimal digits of a UTF-16 unit.  Four bytes of text that are
    no such digits are malformed; where fewer are left, the text has ended. -/
def readUnit : Reader Nat
  | a :: b :: c :: d :: rest =>
    match hexValue? a, hexValue? b, hexValue? c, hexValue? d with
    | some a, some b, some c, some d => .ok (((a * 16 + b) * 16 + c) * 16 + d, rest)
    | _, _, _, _ => .error .malformed
  | s => .error (if (String.ofList s).utf8ByteSize < 4 then .ended else .malformed)

/-- Whether a UTF-16 unit is the first of a pair. -/
def isLeading (unit : Nat) : Bool := 0xD800 ≤ unit && unit < 0xDC00

/-- Whether a UTF-16 unit is the second of a pair. -/
def isTrailing (unit : Nat) : Bool := 0xDC00 ≤ unit && unit < 0xE000

/-- Takes the unit that completes a pair, and gives the character of the pair. -/
def readTrailing (leading : Nat) : Reader Char
  | '\\' :: 'u' :: rest => do
    let (trailing, rest) ← readUnit rest
    if isTrailing trailing then
      .ok (Char.ofNat (0x10000 + (leading - 0xD800) * 0x400 + (trailing - 0xDC00)), rest)
    else .error .malformed
  | [] | ['\\'] => .error .ended
  | _ => .error .malformed

/-- Takes what follows the backslash of an escape, and gives the character that it
    stands for.  Unless units are to be paired, a lone one stands for the replacement
    character. -/
def readEscape (paired : Bool) : Reader Char
  | [] => .error .ended
  | 'u' :: rest => do
    let (unit, rest) ← readUnit rest
    if !isLeading unit && !isTrailing unit then .ok (Char.ofNat unit, rest)
    else if !paired then .ok ('\uFFFD', rest)
    else if isLeading unit then readTrailing unit rest
    else .error .malformed
  | letter :: rest =>
    if letter = '/' then .ok ('/', rest)
    else match shortEscapes.find? fun entry => entry.2 == letter with
      | some entry => .ok (entry.1, rest)
      | none => .error .malformed

theorem takes_readUnit : readUnit.Takes := by
  intro s value rest h
  unfold readUnit at h
  split at h
  case h_1 =>
    split at h
    case h_1 =>
      obtain ⟨_, rfl⟩ := Prod.mk.inj (Except.ok.inj h)
      simp only [List.length_cons]
      omega
    case h_2 => cases h
  case h_2 => cases h

theorem takes_readTrailing (leading : Nat) : (readTrailing leading).Takes := by
  intro s value rest h
  unfold readTrailing at h
  split at h
  case h_1 after =>
    obtain ⟨⟨unit, left⟩, hunit, h⟩ := bind_eq_ok_iff.mp h
    have hlt := takes_readUnit hunit
    dsimp only at h
    split at h
    case isTrue =>
      obtain ⟨_, rfl⟩ := Prod.mk.inj (Except.ok.inj h)
      exact Nat.lt_succ_of_lt (Nat.lt_succ_of_lt hlt)
    case isFalse => cases h
  all_goals cases h

theorem takes_readEscape (paired : Bool) : (readEscape paired).Takes := by
  intro s value rest h
  unfold readEscape at h
  split at h
  case h_1 => cases h
  case h_2 after =>
    obtain ⟨⟨unit, left⟩, hunit, h⟩ := bind_eq_ok_iff.mp h
    have hlt := Nat.lt_succ_of_lt (takes_readUnit hunit)
    dsimp only at h
    split at h
    case isTrue => obtain ⟨_, rfl⟩ := Prod.mk.inj (Except.ok.inj h); exact hlt
    case isFalse =>
      split at h
      case isTrue => obtain ⟨_, rfl⟩ := Prod.mk.inj (Except.ok.inj h); exact hlt
      case isFalse =>
        split at h
        case isTrue => exact Nat.lt_trans (takes_readTrailing _ h) hlt
        case isFalse => cases h
  case h_3 =>
    split at h
    case isTrue => cases h; exact Nat.lt_succ_self _
    case isFalse =>
      split at h
      case h_1 => cases h; exact Nat.lt_succ_self _
      case h_2 => cases h

/-! ### Reading strings -/

/-- Takes the rest of a string whose opening quote has been taken, up to and with its
    closing quote, and gives the characters before that. -/
def readQuoted (paired : Bool) (s : List Char) : Except Fault (List Char × List Char) :=
  match s with
  | [] => .error .ended
  | '"' :: rest => .ok ([], rest)
  | '\\' :: rest =>
    match h : readEscape paired rest with
    | .error fault => .error fault
    | .ok (c, after) =>
      have : after.length < rest.length := takes_readEscape paired h
      (readQuoted paired after).map fun result => (c :: result.1, result.2)
  | c :: rest =>
    if c.toNat < 0x20 then .error .malformed
    else (readQuoted paired rest).map fun result => (c :: result.1, result.2)
termination_by s.length

theorem takes_readQuoted (paired : Bool) : Reader.Takes (readQuoted paired) := by
  intro s
  fun_induction readQuoted paired s with
  | case1 => intro _ _ h; cases h
  | case2 => intro _ _ h; cases h; exact Nat.lt_succ_self _
  | case3 => intro _ _ h; cases h
  | case4 rest c after _ hlt ih =>
    intro value final h
    obtain ⟨result, hresult, h⟩ := map_eq_ok_iff.mp h
    cases h
    have hchain := Nat.lt_trans (ih hresult) hlt
    simp only [List.length_cons]
    omega
  | case5 => intro _ _ h; cases h
  | case6 c rest _ _ _ ih =>
    intro value final h
    obtain ⟨result, hresult, h⟩ := map_eq_ok_iff.mp h
    cases h
    exact Nat.lt_succ_of_lt (ih hresult)

/-! ### Reading what was written -/

theorem hexValue?_digitChar : ∀ {d : Nat}, d < 16 → hexValue? d.digitChar = some d := by decide

theorem mem_of_lookup_shortEscapes {c letter : Char} (h : shortEscapes.lookup c = some letter) :
    (c, letter) ∈ shortEscapes := by
  obtain ⟨before, after, hsplit, _⟩ := List.lookup_eq_some_iff.mp h
  rw [hsplit]
  simp

theorem readEscape_of_lookup {c letter : Char} (paired : Bool) (rest : List Char)
    (h : shortEscapes.lookup c = some letter) :
    readEscape paired (letter :: rest) = .ok (c, rest) := by
  have hmem := mem_of_lookup_shortEscapes h
  simp only [shortEscapes, List.mem_cons, Prod.mk.injEq, List.not_mem_nil, or_false] at hmem
  rcases hmem with h | h | h | h | h | h | h
  all_goals
    obtain ⟨rfl, rfl⟩ := h
    rfl

/-- What is written for a character reads back as the character. -/
theorem readQuoted_escape (paired : Bool) (c : Char) (rest : List Char) :
    readQuoted paired (escape c ++ rest) =
      (readQuoted paired rest).map fun result => (c :: result.1, result.2) := by
  unfold escape
  split
  case h_1 letter hletter =>
    rw [List.cons_append, List.cons_append, List.nil_append, readQuoted]
    have hread := readEscape_of_lookup paired rest hletter
    split
    case h_1 herror => rw [hread] at herror; cases herror
    case h_2 hok => rw [hread] at hok; cases hok; rfl
  case h_2 hnone =>
    split
    case isTrue hlt =>
      have hhigh := hexValue?_digitChar (d := c.toNat / 16) (by omega)
      have hlow := hexValue?_digitChar (d := c.toNat % 16) (by omega)
      have hunit : readUnit
          ('0' :: '0' :: (c.toNat / 16).digitChar :: (c.toNat % 16).digitChar :: rest)
          = .ok (c.toNat, rest) := by
        have hzero : hexValue? '0' = some 0 := by decide
        simp only [readUnit, hzero, hhigh, hlow]
        congr 2
        omega
      have hread : readEscape paired
          ('u' :: '0' :: '0' :: (c.toNat / 16).digitChar :: (c.toNat % 16).digitChar :: rest)
          = .ok (c, rest) := by
        have hleading : isLeading c.toNat = false := by simp [isLeading]; omega
        have htrailing : isTrailing c.toNat = false := by simp [isTrailing]; omega
        simp [readEscape, hunit, bind, Except.bind, hleading, htrailing]
      simp only [List.cons_append, List.nil_append]
      rw [readQuoted]
      split
      case h_1 herror => rw [hread] at herror; cases herror
      case h_2 hok => rw [hread] at hok; cases hok; rfl
    case isFalse hge =>
      have hquote : c ≠ '"' := by rintro rfl; exact absurd hnone (by decide)
      have hback : c ≠ '\\' := by rintro rfl; exact absurd hnone (by decide)
      rw [List.cons_append, List.nil_append, readQuoted.eq_def]
      split
      case h_1 h => cases h
      case h_2 h => exact absurd (List.cons.inj h).1 hquote
      case h_3 h => exact absurd (List.cons.inj h).1 hback
      case h_4 h =>
        obtain ⟨rfl, rfl⟩ := List.cons.inj h
        rw [if_neg hge]

/-- Reading gives back what was quoted, and leaves what follows it. -/
theorem readQuoted_flatMap_escape (paired : Bool) (s rest : List Char) :
    readQuoted paired (s.flatMap escape ++ '"' :: rest) = .ok (s, rest) := by
  induction s with
  | nil => rw [List.flatMap_nil, List.nil_append, readQuoted]
  | cons c s ih => rw [List.flatMap_cons, List.append_assoc, readQuoted_escape, ih]; rfl

end Cron.Json
