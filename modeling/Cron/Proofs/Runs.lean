/-
  Cron/Proofs/Runs.lean
  =====================
  **The runs of a schedule, in order and without gaps.**

  A search under a low ceiling may give up, but it never passes over a run: what it finds
  is the first permitted second after its start (`Planner.isLeast_of_nextRun`).  So requests
  for runs are answered with the first runs there are, each one the first after the one
  before, until a request is answered with none; from then on none is the only answer
  (`take_after_eq`).  Where 5000 candidates may be tested, the answers give out only after
  the last run of the calendar.
-/
import Cron.Proofs.Planner
import Cron.Runs
import Mathlib.Data.List.ReduceOption

namespace Cron

open Cron.Calendar

/-! ### How a set begins -/

/-- A list is how a set begins when its members are taken in ascending order. -/
structure IsInitialSegment {α : Type} [LinearOrder α] (elements : List α) (set : Set α) :
    Prop where
  ascending : elements.Pairwise (· < ·)
  mem : ∀ element ∈ elements, element ∈ set
  /-- No member is left out that comes before one of the list. -/
  closed : ∀ element ∈ elements, ∀ earlier ∈ set, earlier < element → earlier ∈ elements

namespace IsInitialSegment

variable {α : Type} [LinearOrder α] {first : α} {rest : List α} {set : Set α}

theorem nil : IsInitialSegment [] set :=
  ⟨List.Pairwise.nil, List.forall_mem_nil _, List.forall_mem_nil _⟩

/-- A set begins with its least member, and goes on as the members above it begin. -/
theorem cons (hleast : IsLeast set first)
    (hrest : IsInitialSegment rest {element | element ∈ set ∧ first < element}) :
    IsInitialSegment (first :: rest) set := by
  refine ⟨?_, ?_, ?_⟩
  · rw [List.pairwise_cons]
    exact ⟨fun element hmem => (hrest.mem element hmem).2, hrest.ascending⟩
  · rw [List.forall_mem_cons]
    exact ⟨hleast.1, fun element hmem => (hrest.mem element hmem).1⟩
  · intro element helement earlier hset hlt
    rcases (hleast.2 hset).eq_or_lt with rfl | hfirst
    · exact List.mem_cons_self
    · -- what lies above the least member is in the rest, and so is what lies above that
      apply List.mem_cons_of_mem
      rcases List.mem_cons.mp helement with rfl | hmem
      · exact absurd hlt hfirst.asymm
      · exact hrest.closed element hmem earlier ⟨hset, hfirst⟩ hlt

end IsInitialSegment

/-- The runs after a run are the later ones. -/
theorem Schedule.runsAfter_ofMoment {schedule : Schedule} {start : Instant} {run : Moment}
    (h : start < Instant.ofMoment run) :
    schedule.runsAfter (Instant.ofMoment run) =
      {moment | moment ∈ schedule.runsAfter start ∧ run < moment} := by
  ext moment
  simp only [runsAfter, Set.mem_ofPred_eq, Instant.lt_ofMoment_iff] at h ⊢
  constructor
  · rintro ⟨hlt, hpermits⟩
    exact ⟨⟨h.trans hlt, hpermits⟩, hlt⟩
  · rintro ⟨⟨_, hpermits⟩, hlt⟩
    exact ⟨hlt, hpermits⟩

/-! ### Requests in a row -/

namespace Runs

theorem take_of_cursor?_eq_none {runs : Runs} (h : runs.cursor? = none) (count : Nat) :
    runs.take count = List.replicate count none := by
  induction count with
  | zero => rfl
  | succ count ih => rw [take, next_of_cursor?_eq_none h, ih, List.replicate_succ]

variable {planner : Planner} {start : Instant}

/-- A request that is not answered is the first of many. -/
theorem take_after_of_nextRun_eq_error {failure : Failure}
    (h : planner.nextRun start = .error failure) (count : Nat) :
    (Runs.after planner start).take count = List.replicate count none := by
  cases count with
  | zero => rfl
  | succ count =>
    have hnext : (Runs.after planner start).next = (none, ⟨planner, none⟩) := by
      simp [next, after, h, Except.toOption]
    rw [take, hnext, take_of_cursor?_eq_none rfl, List.replicate_succ]

/-- After a run the requests go on as if they had begun with it. -/
theorem take_after_of_nextRun_eq_ok {run : Moment} (h : planner.nextRun start = .ok run)
    (count : Nat) :
    (Runs.after planner start).take (count + 1) =
      some run :: (Runs.after planner (Instant.ofMoment run)).take count := by
  have hnext : (Runs.after planner start).next =
      (some run, Runs.after planner (Instant.ofMoment run)) := by
    simp [next, after, h, Except.toOption]
  rw [take, hnext]

/-- **Enumeration.**  Any number of requests is answered with runs first and with none
    afterwards.  The runs are how the schedule goes on after the start, and when the
    ceiling is 5000 or more the first answer without a run comes only after all of them. -/
theorem take_after_eq (planner : Planner) {text : String}
    (h : Schedule.parse text = .ok planner.schedule) (start : Instant) (count : Nat) :
    ∃ (runs : List Moment) (ended : Nat),
      (Runs.after planner start).take count = runs.map some ++ List.replicate ended none ∧
        IsInitialSegment runs (planner.schedule.runsAfter start) ∧
        (5000 ≤ planner.settings.ceiling.toNat → 0 < ended →
          ∀ run ∈ planner.schedule.runsAfter start, run ∈ runs) := by
  have hs := Schedule.wellFormed_of_parse h
  induction count generalizing start with
  | zero => exact ⟨[], 0, rfl, IsInitialSegment.nil, fun _ hended => absurd hended (lt_irrefl 0)⟩
  | succ count ih =>
    cases hsearch : planner.nextRun start with
    | error failure =>
      refine ⟨[], count + 1, take_after_of_nextRun_eq_error hsearch _, IsInitialSegment.nil, ?_⟩
      intro hceiling _ run hrun
      rw [Planner.runsAfter_eq_empty_of_nextRun hs hceiling hsearch] at hrun
      exact absurd hrun (Set.notMem_empty run)
    | ok run =>
      have hleast := Planner.isLeast_of_nextRun hs hsearch
      obtain ⟨runs, ended, htake, hsegment, hall⟩ := ih (Instant.ofMoment run)
      rw [Schedule.runsAfter_ofMoment hleast.1.1] at hsegment hall
      refine ⟨run :: runs, ended, ?_, IsInitialSegment.cons hleast hsegment, ?_⟩
      · rw [take_after_of_nextRun_eq_ok hsearch, htake, List.map_cons, List.cons_append]
      · intro hceiling hended other hother
        rcases (hleast.2 hother).eq_or_lt with rfl | hlt
        · exact List.mem_cons_self
        · exact List.mem_cons_of_mem _ (hall hceiling hended other ⟨hother, hlt⟩)

/-- The answers tell how many runs there were, and which. -/
theorem answers_inj {runs others : List Moment} {ended count : Nat}
    (h : runs.map some ++ List.replicate ended none =
      others.map some ++ List.replicate count none) : runs = others ∧ ended = count := by
  have hruns : runs = others := by
    simpa [List.reduceOption_append, List.reduceOption] using congrArg List.reduceOption h
  rw [hruns, List.append_cancel_left_eq] at h
  exact ⟨hruns, by simpa using congrArg List.length h⟩

/-- Fridays that are a thirteenth.  With four candidates to a search there is no way from
    December 2024 to the June that follows, and the requests end there.  With as many as
    there are by default, the two such Fridays in the last year of the calendar are found,
    and they are the last. -/
theorem take_fridays :
    let autumn := Instant.ofMoment ⟨⟨2024, 9, 1, by decide⟩, TimeOfDay.midnight⟩
    let september : Moment := ⟨⟨2024, 9, 13, by decide⟩, TimeOfDay.midnight⟩
    let december : Moment := ⟨⟨2024, 12, 13, by decide⟩, TimeOfDay.midnight⟩
    let lastYear := Instant.ofMoment ⟨⟨262142, 1, 1, by decide⟩, TimeOfDay.midnight⟩
    let april : Moment := ⟨⟨262142, 4, 13, by decide⟩, TimeOfDay.midnight⟩
    let july : Moment := ⟨⟨262142, 7, 13, by decide⟩, TimeOfDay.midnight⟩
    let four : Planner := ⟨Planner.fridayThirteenth, ⟨4⟩, by decide⟩
    let usual := Planner.ofSchedule Planner.fridayThirteenth
    (Runs.after four autumn).take 4 = [some september, some december, none, none] ∧
      IsInitialSegment [september, december] (four.schedule.runsAfter autumn) ∧
      (Runs.after usual lastYear).take 4 = [some april, some july, none, none] ∧
      ∀ run ∈ usual.schedule.runsAfter lastYear, run ∈ [april, july] := by
  intro autumn september december lastYear april july four usual
  have h : Schedule.parse "0 0 0 13 * fri" = .ok Planner.fridayThirteenth := by decide +kernel
  have hautumn : (Runs.after four autumn).take 4 = [some september, some december, none, none] := by
    decide +kernel
  have hlast : (Runs.after usual lastYear).take 4 = [some april, some july, none, none] := by
    decide +kernel
  refine ⟨hautumn, ?_, hlast, ?_⟩
  · obtain ⟨runs, ended, htake, hsegment, _⟩ := take_after_eq four h autumn 4
    have htwo : runs.map some ++ List.replicate ended none =
        [september, december].map some ++ List.replicate 2 none := htake.symm.trans hautumn
    rw [(answers_inj htwo).1] at hsegment
    exact hsegment
  · obtain ⟨runs, ended, htake, _, hall⟩ := take_after_eq usual h lastYear 4
    have htwo : runs.map some ++ List.replicate ended none =
        [april, july].map some ++ List.replicate 2 none := htake.symm.trans hlast
    rw [(answers_inj htwo).1, (answers_inj htwo).2] at hall
    exact hall (by decide) (by decide)

end Runs

end Cron
