/-
  Cron/Search/Walk.lean
  =====================
  **Walking from candidate to candidate.**

  A walk tests a candidate, follows the carry out of it when the schedule rejects
  it, and goes on from there.  It ends with a permitted moment, at the end of the
  calendar, or when it has tested as many candidates as it may.
-/
import Cron.Search.Carry

namespace Cron

open Cron.Calendar

/-- What a walk did: the carries it took in order, the number of candidates it tested
    and the permitted moment it found, if any. -/
structure Walk where
  carries : List Carry
  tested : Nat
  found? : Option Moment
deriving DecidableEq, Repr

/-- The walk from a candidate that tests `ceiling` candidates at most. -/
def Schedule.walk (schedule : Schedule) : (ceiling : Nat) → (candidate : Moment) → Walk
  | 0, _ => ⟨[], 0, none⟩
  | ceiling + 1, candidate =>
    if schedule.permits candidate.reading then ⟨[], 1, some candidate⟩
    else match schedule.carry? candidate with
      | none => ⟨[], 1, none⟩
      | some carry =>
        match schedule.follow? candidate carry with
        | none => ⟨[carry], 1, none⟩
        | some next =>
          let rest := schedule.walk ceiling next
          ⟨carry :: rest.carries, rest.tested + 1, rest.found?⟩

/-- A walk keeps to its ceiling. -/
theorem Schedule.tested_walk_le (schedule : Schedule) (ceiling : Nat) (candidate : Moment) :
    (schedule.walk ceiling candidate).tested ≤ ceiling := by
  induction ceiling generalizing candidate with
  | zero => exact Nat.le_refl 0
  | succ ceiling ih =>
    unfold walk
    split
    case isTrue => exact Nat.le_add_left 1 ceiling
    case isFalse =>
      split
      case h_1 => exact Nat.le_add_left 1 ceiling
      case h_2 =>
        split
        case h_1 => exact Nat.le_add_left 1 ceiling
        case h_2 next _ => exact Nat.succ_le_succ (ih next)

end Cron
