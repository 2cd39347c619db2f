import Mathlib.Data.List.Chain
import Mathlib.Order.Bounds.Basic
import Mathlib.Tactic.Ring
import Hvnetpp.Timers.Objects

namespace Hvnetpp.Timers

open Machine

/-- The time points of a timer first due at `start`, in nanoseconds, and then every `interval` microseconds. -/
def Grid (start interval : Int) : Set Int := {point | ∃ periods : Int, point = start + periods * (1000 * interval)}

theorem Grid.isLeast {start interval point now : Int} (positive : 0 < interval) (onGrid : point ∈ Grid start interval)
    (before : point - 1000 * interval ≤ now) (after : now < point) :
    IsLeast {later | later ∈ Grid start interval ∧ now < later} point := by
  refine ⟨⟨onGrid, after⟩, ?_⟩
  rintro later ⟨⟨others, rfl⟩, late⟩
  obtain ⟨periods, rfl⟩ := onGrid
  have apart : (periods - 1) * (1000 * interval) < others * (1000 * interval) := by
    rw [sub_mul]
    omega
  have fewer : periods - 1 < others := Int.lt_of_mul_lt_mul_right apart (by omega)
  have scaled : periods * (1000 * interval) ≤ others * (1000 * interval) :=
    Int.mul_le_mul_of_nonneg_right (by omega) (by omega)
  omega

/-- Dropping the part below a microsecond does not change the number of whole intervals. -/
theorem skipped_bounds (overdue : Int) {interval : Int} (late : 0 ≤ overdue) (positive : 0 < interval) :
    1000 * (interval * (overdue.tdiv 1000).tdiv interval) ≤ overdue ∧
      overdue < 1000 * (interval * ((overdue.tdiv 1000).tdiv interval + 1)) := by
  rw [Int.tdiv_eq_ediv_of_nonneg late, Int.tdiv_eq_ediv_of_nonneg (by omega)]
  have whole := Int.mul_ediv_self_le (x := overdue / 1000) (k := interval) (by omega)
  have next := Int.lt_mul_ediv_self_add (x := overdue / 1000) (k := interval) positive
  rw [mul_add, mul_one]
  omega

theorem restart_next {timer : Timer} {start now : Int} (repeats : timer.repeat_ = true)
    (positive : 0 < timer.interval) (onGrid : timer.expiration ∈ Grid start timer.interval)
    (due : timer.expiration ≤ now) :
    IsLeast {later | later ∈ Grid start timer.interval ∧ now < later} (timer.restart now).expiration := by
  obtain ⟨periods, same⟩ := onGrid
  simp only [Timer.restart, repeats, positive, ↓reduceIte]
  split
  · rename_i overdue
    obtain ⟨whole, next⟩ := skipped_bounds (now - (timer.expiration + 1000 * timer.interval))
      (by omega) positive
    refine Grid.isLeast positive ⟨periods + 1 + (((now - (timer.expiration + 1000 * timer.interval)).tdiv 1000).tdiv
      timer.interval + 1), ?_⟩ ?_ ?_
    · simp only
      rw [same]
      ring
    · simp only
      rw [mul_add, mul_one] at next ⊢
      omega
    · simp only
      omega
  · refine Grid.isLeast positive ⟨periods + 1, ?_⟩ ?_ ?_
    · simp only
      rw [same]
      ring
    · simp only
      omega
    · simp only
      omega

theorem restart_keeps (timer : Timer) (now : Int) :
    ∃ expiration, timer.restart now = { timer with expiration := expiration } := by
  simp only [Timer.restart]
  split
  · split
    · split <;> exact ⟨_, rfl⟩
    · exact ⟨_, rfl⟩
  · exact ⟨_, rfl⟩

/-- One start of a callback: the expiration it was for and the reading of the `handleRead` that started it. -/
structure Run where
  expiration : Int
  now : Int
  deriving DecidableEq, Repr

/-- `Schedule start interval runs next`: after these runs the timer is due at `next`. -/
inductive Schedule (start interval : Int) : List Run → Int → Prop where
  | first : Schedule start interval [] start
  | next {runs : List Run} {expiration now later : Int} (before : Schedule start interval runs expiration)
      (due : expiration ≤ now) (repeats : 0 < interval)
      (least : IsLeast {point | point ∈ Grid start interval ∧ now < point} later) :
      Schedule start interval (runs ++ [⟨expiration, now⟩]) later

/-- The callback has been started for every expiration of the schedule so far. -/
inductive Ran (start interval : Int) : List Run → Prop where
  | none : Ran start interval []
  | some {runs : List Run} {expiration now : Int} (before : Schedule start interval runs expiration)
      (due : expiration ≤ now) : Ran start interval (runs ++ [⟨expiration, now⟩])

variable {start interval : Int} {runs : List Run} {next : Int}

theorem Schedule.grid (schedule : Schedule start interval runs next) : next ∈ Grid start interval := by
  cases schedule with
  | first => exact ⟨0, by omega⟩
  | next _ _ _ least => exact least.1.1

theorem Schedule.once (schedule : Schedule start interval runs next) (single : interval ≤ 0) : runs = [] := by
  cases schedule with
  | first => rfl
  | next _ _ repeats _ => omega

def Follows (start interval : Int) (earlier later : Run) : Prop :=
  earlier.expiration < later.expiration ∧
    IsLeast {point | point ∈ Grid start interval ∧ earlier.now < point} later.expiration

structure OnSchedule (start interval : Int) (runs : List Run) : Prop where
  first : ∀ run ∈ runs.head?, run.expiration = start
  grid : ∀ run ∈ runs, run.expiration ∈ Grid start interval ∧ run.expiration ≤ run.now
  chain : runs.IsChain (Follows start interval)

theorem OnSchedule.append {expiration now : Int} (on : OnSchedule start interval runs)
    (member : expiration ∈ Grid start interval) (due : expiration ≤ now)
    (only : runs = [] → expiration = start)
    (follows : ∀ run ∈ runs.getLast?, Follows start interval run ⟨expiration, now⟩) :
    OnSchedule start interval (runs ++ [⟨expiration, now⟩]) where
  first := by
    cases runs with
    | nil =>
      intro run head
      cases head
      exact only rfl
    | cons head tail => exact on.first
  grid := by
    intro run listed
    rcases List.mem_append.mp listed with old | new
    · exact on.grid run old
    · cases List.mem_singleton.mp new
      exact ⟨member, due⟩
  chain := by
    apply List.isChain_append.mpr
    refine ⟨on.chain, .singleton _, ?_⟩
    intro run last other head
    cases head
    exact follows run last

theorem Schedule.on (schedule : Schedule start interval runs next) :
    OnSchedule start interval runs ∧ (runs = [] → next = start) ∧
      ∀ run ∈ runs.getLast?, run.expiration ≤ run.now ∧
        IsLeast {point | point ∈ Grid start interval ∧ run.now < point} next := by
  induction schedule with
  | first =>
    refine ⟨⟨?_, ?_, .nil⟩, fun _ => rfl, ?_⟩
    · intro run head
      cases head
    · intro run listed
      cases listed
    · intro run last
      cases last
  | next before due repeats least hypothesis =>
    obtain ⟨on, only, last⟩ := hypothesis
    refine ⟨on.append before.grid due only ?_, ?_, ?_⟩
    · intro run member
      obtain ⟨late, next⟩ := last run member
      exact ⟨lt_of_le_of_lt late next.1.2, next⟩
    · intro empty
      simp at empty
    · intro run member
      rw [List.getLast?_concat] at member
      cases member
      exact ⟨due, least⟩

theorem Ran.on (ran : Ran start interval runs) : OnSchedule start interval runs := by
  cases ran with
  | none => exact Schedule.first.on.1
  | some before due =>
    obtain ⟨on, only, last⟩ := before.on
    apply on.append before.grid due only
    intro run member
    obtain ⟨late, next⟩ := last run member
    exact ⟨lt_of_le_of_lt late next.1.2, next⟩

theorem Ran.once (ran : Ran start interval runs) (single : interval ≤ 0) : runs.length ≤ 1 := by
  cases ran with
  | none => exact Nat.zero_le _
  | some before due =>
    rw [before.once single]
    exact le_refl _

end Hvnetpp.Timers
