/-
  Cron/Expansion.lean
  ===================
  **From the text of a field to the values that it permits.**

  Each item of a field denotes a *stride*: a start, an end and a step between
  them.  A star runs through all values of the field, a range from one value to
  another, and a single value only to itself, unless it has a step: then it runs
  up to the field's largest value.  A field permits what some item permits.

  Expansion takes nothing on trust.  It reads any text, also one that the grammar
  check has never seen, and refuses whatever denotes no set of values.  Unlike the
  grammar it lets blanks stand around the items.
-/
import Cron.Fault
import Cron.Text.Blank
import Cron.Text.Cut

namespace Cron

open Cron.Text

/-! ### Strides -/

/-- The values `start`, `start + step`, `start + 2 * step`, … that are at most `stop`. -/
structure Stride where
  start : Nat
  stop : Nat
  step : Nat
deriving DecidableEq, Repr

/-- The values that a stride passes through, ascending. -/
def Stride.values (stride : Stride) : List Nat :=
  List.range' stride.start ((stride.stop + stride.step - stride.start) / stride.step) stride.step

/-- A stride that moves passes through what some number of steps reaches. -/
theorem Stride.mem_values_iff {stride : Stride} (hstep : 0 < stride.step) {value : Nat} :
    value ∈ stride.values ↔
      ∃ k, value = stride.start + k * stride.step ∧ value ≤ stride.stop := by
  rw [values, List.mem_range']
  refine exists_congr fun k => ?_
  -- the quotient counts the start as well, so its last step still ends at the stop
  have hcount : k < (stride.stop + stride.step - stride.start) / stride.step ↔
      stride.start + k * stride.step ≤ stride.stop := by
    rw [Nat.lt_iff_add_one_le, Nat.le_div_iff_mul_le hstep, Nat.succ_mul]
    omega
  rw [Nat.mul_comm stride.step, hcount]
  constructor
  case mp =>
    rintro ⟨hstop, rfl⟩
    exact ⟨rfl, hstop⟩
  case mpr =>
    rintro ⟨rfl, hstop⟩
    exact ⟨hstop, rfl⟩

/-! ### Collecting values -/

/-- Puts a value in its place in an ascending list, unless it is there already. -/
def insertAscending (value : Nat) : (values : List Nat) → List Nat
  | [] => [value]
  | first :: rest =>
    if value < first then value :: first :: rest
    else if first < value then first :: insertAscending value rest
    else first :: rest

@[simp] theorem mem_insertAscending {value other : Nat} {values : List Nat} :
    other ∈ insertAscending value values ↔ other = value ∨ other ∈ values := by
  induction values with
  | nil => simp [insertAscending]
  | cons first rest ih =>
    unfold insertAscending
    split
    case isTrue => exact List.mem_cons
    case isFalse hge =>
      split
      case isTrue => rw [List.mem_cons, ih, List.mem_cons, or_left_comm]
      case isFalse hle =>
        have heq : value = first := Nat.le_antisymm (Nat.not_lt.mp hle) (Nat.not_lt.mp hge)
        rw [heq, List.mem_cons, or_self_left]

theorem pairwise_insertAscending {values : List Nat} (value : Nat)
    (h : values.Pairwise (· < ·)) : (insertAscending value values).Pairwise (· < ·) := by
  induction values with
  | nil => exact List.pairwise_singleton _ _
  | cons first rest ih =>
    obtain ⟨hfirst, hrest⟩ := List.pairwise_cons.mp h
    unfold insertAscending
    split
    case isTrue hlt =>
      refine List.pairwise_cons.mpr ⟨?_, h⟩
      exact List.forall_mem_cons.mpr ⟨hlt, fun other hmem => Nat.lt_trans hlt (hfirst other hmem)⟩
    case isFalse =>
      split
      case isTrue hlt =>
        refine List.pairwise_cons.mpr ⟨?_, ih hrest⟩
        intro other hmem
        rcases mem_insertAscending.mp hmem with rfl | hmem
        · exact hlt
        · exact hfirst other hmem
      case isFalse => exact h

/-- The values through which some stride passes, ascending and without repetition. -/
def Stride.collect (strides : List Stride) : List Nat :=
  (strides.flatMap Stride.values).foldr insertAscending []

@[simp] theorem Stride.mem_collect {strides : List Stride} {value : Nat} :
    value ∈ collect strides ↔ ∃ stride ∈ strides, value ∈ stride.values := by
  rw [collect, ← List.mem_flatMap]
  induction strides.flatMap Stride.values with
  | nil => rfl
  | cons first values ih => rw [List.foldr_cons, mem_insertAscending, ih, List.mem_cons]

theorem Stride.pairwise_collect (strides : List Stride) :
    (collect strides).Pairwise (· < ·) := by
  unfold collect
  induction strides.flatMap Stride.values with
  | nil => exact List.Pairwise.nil
  | cons first values ih => exact pairwise_insertAscending first ih

namespace Field

/-! ### Reading items -/

/-- The value of a token, within the bounds of its field. -/
def resolve (field : Field) (token : List Char) : Except ExpansionFault Nat :=
  match field.value? token with
  | none => .error (.unknownName (String.ofList token))
  | some value =>
    if field.bounds.contains value then .ok value
    else .error (.outOfRange value field.bounds)

/-- The step written after a slash: a positive literal. -/
def readStep (text : List Char) : Except ExpansionFault Nat :=
  match literal? text with
  | some (n + 1) => .ok (n + 1)
  | _ => .error (.invalidStep (String.ofList text))

/-- The first value of a base and its last one, where an open single value has the
    field's largest value as its last. -/
def readEnds (field : Field) (isOpen : Bool) (base : List Char) :
    Except ExpansionFault (Nat × Nat) :=
  if base = ['*'] then .ok (field.bounds.min, field.bounds.max)
  else match cutAt? '-' base with
    | some (start, stop) => do
      let first ← field.resolve start
      let last ← field.resolve stop
      if last < first then .error (.invertedRange first last) else .ok (first, last)
    | none =>
      (field.resolve base).map fun value => (value, if isOpen then field.bounds.max else value)

/-- The stride that an item denotes.  The step is read before the base. -/
def readItem (field : Field) (item : List Char) : Except ExpansionFault Stride :=
  if item.isEmpty then .error .empty
  else match cutAt? '/' item with
    | none => (field.readEnds false item).map fun ends => ⟨ends.1, ends.2, 1⟩
    | some (base, stepText) => do
      let step ← readStep stepText
      let ends ← field.readEnds true base
      return ⟨ends.1, ends.2, step⟩

/-! ### Expanding fields -/

/-- The strides of all items of a field; the leftmost fault wins. -/
def strides (field : Field) (text : List Char) : Except ExpansionFault (List Stride) :=
  (text.splitOn ',').mapM fun item => field.readItem (trim item)

/-- The values that a field's text permits, ascending and without repetition.  A text that
    permits none would be refused. -/
def expand (field : Field) (text : List Char) : Except ExpansionError (List Nat) :=
  match field.strides text with
  | .error fault => .error ⟨field, fault⟩
  | .ok strides =>
    let values := Stride.collect strides
    if values.isEmpty then .error ⟨field, .empty⟩ else .ok values

end Field

end Cron
