import Mathlib.Algebra.Order.Ring.Nat
import Mathlib.Data.Prod.Lex
import Mathlib.Logic.Function.Basic
import Hvnetpp.Machine.Runs
import Hvnetpp.Machine.OrderedSet

namespace Hvnetpp.Timers

open Machine

/-- A `Timer` object. Time points count nanoseconds, intervals microseconds. -/
structure Timer where
  expiration : Int
  interval : Int
  repeat_ : Bool
  sequence : Nat
  deriving DecidableEq, Repr

def Timer.create (when interval : Int) (sequence : Nat) : Timer :=
  { expiration := when, interval := interval, repeat_ := decide (0 < interval), sequence := sequence }

def Timer.restart (timer : Timer) (now : Int) : Timer :=
  if timer.repeat_ then
    if 0 < timer.interval then
      let expiration := timer.expiration + 1000 * timer.interval
      if expiration ≤ now then
        let overdue := (now - expiration).tdiv 1000
        let skipped := overdue.tdiv timer.interval + 1
        { timer with expiration := expiration + 1000 * (timer.interval * skipped) }
      else { timer with expiration := expiration }
    else { timer with expiration := now }
  else { timer with expiration := 0 }

/-- `std::pair<Timestamp, Timer*>`, in its lexicographic order. -/
structure Entry where
  expiration : Int
  timer : Nat
  deriving DecidableEq, Repr

instance : LinearOrder Entry :=
  LinearOrder.lift' (fun entry => toLex (entry.expiration, entry.timer)) (by
    rintro ⟨_, _⟩ ⟨_, _⟩ same
    simpa using same)

/-- `std::pair<Timer*, int64_t>`, which is also what a `TimerId` carries. -/
structure ActiveTimer where
  timer : Nat
  sequence : Nat
  deriving DecidableEq, Repr

instance : LinearOrder ActiveTimer :=
  LinearOrder.lift' (fun timer => toLex (timer.timer, timer.sequence)) (by
    rintro ⟨_, _⟩ ⟨_, _⟩ same
    simpa using same)

abbrev TimerId := ActiveTimer

/-- `UINTPTR_MAX`, which is no object's address. -/
def uintptrMax : Nat := 2 ^ 64 - 1

/-- The queue and the timer objects it points to, by address. `timerfd` is the time at which the descriptor
    fires or has fired unread. `failed` records that an assertion did not hold or a deleted timer was
    used. -/
structure TimerQueue where
  heap : Nat → Option Timer
  timers : OrderedSet Entry
  activeTimers : OrderedSet ActiveTimer
  callingExpiredTimers : Bool
  cancelingTimers : OrderedSet ActiveTimer
  timerfd : Option Int
  failed : Bool

def TimerQueue.create : TimerQueue :=
  { heap := fun _ => none, timers := ∅, activeTimers := ∅, callingExpiredTimers := false,
    cancelingTimers := ∅, timerfd := none, failed := false }

def TimerQueue.fail (q : TimerQueue) : TimerQueue := { q with failed := true }

def TimerQueue.check (q : TimerQueue) (holds : Prop) [Decidable holds] : TimerQueue :=
  if holds then q else q.fail

structure Timespec where
  tv_sec : Int
  tv_nsec : Int
  deriving DecidableEq, Repr

/-- `clock` is the reading the function takes itself. -/
def howMuchTimeFromNow (when clock : Int) : Timespec :=
  let microseconds := (when - clock).tdiv 1000
  let microseconds := if microseconds < 100 then 100 else microseconds
  { tv_sec := microseconds.tdiv 1000000, tv_nsec := microseconds.tmod 1000000 * 1000 }

/-- `timerfd_settime` with a relative value: zero disarms. -/
def settime (value : Timespec) (clock : Int) : Option Int :=
  if value.tv_sec = 0 ∧ value.tv_nsec = 0 then none else some (clock + value.tv_sec * 1000000000 + value.tv_nsec)

def TimerQueue.resetTimerfd (q : TimerQueue) (expiration clock : Int) : TimerQueue :=
  { q with timerfd := settime (howMuchTimeFromNow expiration clock) clock }

def TimerQueue.disarmTimerfd (q : TimerQueue) : TimerQueue := { q with timerfd := none }

/-- A descriptor that has not fired yet stays armed. -/
def TimerQueue.readTimerfd (q : TimerQueue) (now : Int) : TimerQueue :=
  { q with timerfd := q.timerfd.filter fun firing => decide (now < firing) }

def TimerQueue.delete (q : TimerQueue) (timer : Nat) : TimerQueue :=
  { q.check ((q.heap timer).isSome = true) with heap := Function.update q.heap timer none }

def insertTimer (q : TimerQueue) (timer : Nat) (value : Timer) : TimerQueue :=
  let entry : Entry := ⟨value.expiration, timer⟩
  let active : ActiveTimer := ⟨timer, value.sequence⟩
  let q := q.check (q.timers.size = q.activeTimers.size)
  let q := { q.check (entry ∉ q.timers) with timers := q.timers.insert entry }
  let q := { q.check (active ∉ q.activeTimers) with activeTimers := q.activeTimers.insert active }
  q.check (q.timers.size = q.activeTimers.size)

def TimerQueue.earliestChanged (q : TimerQueue) (when : Int) : Bool :=
  match q.timers.first with
  | none => true
  | some earliest => decide (when < earliest.expiration)

def TimerQueue.insert (q : TimerQueue) (timer : Nat) : TimerQueue × Bool :=
  match q.heap timer with
  | none => (q.fail, false)
  | some value => (insertTimer q timer value, q.earliestChanged value.expiration)

def TimerQueue.addTimerInLoop (q : TimerQueue) (timer : Nat) (clock : Int) : TimerQueue :=
  match q.insert timer with
  | (q, true) =>
    match q.heap timer with
    | none => q.fail
    | some value => q.resetTimerfd value.expiration clock
  | (q, false) => q

/-- Re-arms for `timers_.begin()`, if any. -/
def TimerQueue.rearm (q : TimerQueue) (clock : Int) : TimerQueue :=
  match q.timers.first with
  | none => q.disarmTimerfd
  | some earliest =>
    match q.heap earliest.timer with
    | none => q.fail
    | some value => q.resetTimerfd value.expiration clock

/-- The branch of `cancelInLoop` that finds the timer. -/
def TimerQueue.removeActive (q : TimerQueue) (id : TimerId) (value : Timer) (clock : Int) : TimerQueue :=
  let earliestChanged := decide (q.timers.first.map Entry.timer = some id.timer)
  let entry : Entry := ⟨value.expiration, id.timer⟩
  let q := { q.check (entry ∈ q.timers) with timers := q.timers.erase entry }
  let q := { q.delete id.timer with activeTimers := q.activeTimers.erase id }
  if earliestChanged then q.rearm clock else q

def TimerQueue.cancelInLoop (q : TimerQueue) (id : TimerId) (clock : Int) : TimerQueue :=
  let q := q.check (q.timers.size = q.activeTimers.size)
  if id ∈ q.activeTimers then
    match q.heap id.timer with
    | none => q.fail
    | some value => q.removeActive id value clock
  else if q.callingExpiredTimers then { q with cancelingTimers := q.cancelingTimers.insert id }
  else q

def TimerQueue.eraseActive (q : TimerQueue) (entry : Entry) : TimerQueue :=
  match q.heap entry.timer with
  | none => q.fail
  | some value =>
    let active : ActiveTimer := ⟨entry.timer, value.sequence⟩
    { q.check (active ∈ q.activeTimers) with activeTimers := q.activeTimers.erase active }

def sentry (now : Int) : Entry := ⟨now, uintptrMax⟩

def TimerQueue.expired (q : TimerQueue) (now : Int) : List Entry := q.timers.below (sentry now)

/-- What `getExpired` leaves; what it returns is `expired`. -/
def TimerQueue.getExpired (q : TimerQueue) (now : Int) : TimerQueue :=
  (q.expired now).foldl TimerQueue.eraseActive { q with timers := q.timers.above (sentry now) }

/-- One turn of the loop in `reset`. -/
def TimerQueue.resetEntry (now : Int) (q : TimerQueue) (entry : Entry) : TimerQueue :=
  match q.heap entry.timer with
  | none => q.fail
  | some value =>
    if value.repeat_ ∧ (⟨entry.timer, value.sequence⟩ : ActiveTimer) ∉ q.cancelingTimers then
      let restarted := value.restart now
      insertTimer { q with heap := Function.update q.heap entry.timer (some restarted) } entry.timer restarted
    else q.delete entry.timer

def TimerQueue.reset (q : TimerQueue) (expired : List Entry) (now clock : Int) : TimerQueue :=
  let q := expired.foldl (TimerQueue.resetEntry now) q
  match q.timers.first with
  | none => q
  | some earliest =>
    match q.heap earliest.timer with
    | none => q.fail
    | some value => if value.expiration ≠ 0 then q.resetTimerfd value.expiration clock else q

/-- `handleRead` between `getExpired` and `reset`: the entries whose callbacks have returned, the one whose
    callback is running, and those still to be run. -/
structure Batch where
  now : Int
  visited : List Entry
  current : Option Entry
  rest : List Entry
  deriving DecidableEq, Repr

def Batch.expired (batch : Batch) : List Entry := batch.visited ++ batch.current.toList ++ batch.rest

/-- The queue of one loop with the threads that use it. `incoming` are the timers whose `addTimerInLoop`
    has not run yet, and `started` is history: the sequence numbers in the order the callbacks were
    started. -/
structure State where
  queue : TimerQueue
  numCreated : Nat
  incoming : List Nat
  batch : Option Batch
  started : List Nat

def State.initial (numCreated : Nat) : State :=
  { queue := .create, numCreated := numCreated, incoming := [], batch := none, started := [] }

inductive Action where
  | create (timer : Nat) (when interval : Int)
  | createElsewhere
  | addTimerInLoop (timer : Nat) (clock : Int)
  | cancelInLoop (id : TimerId) (clock : Int)
  | handleRead (now : Int)
  | run
  | returned
  | reset (clock : Int)
  deriving DecidableEq, Repr

/-- The loop thread is outside `handleRead`, or in a callback that `handleRead` has started. -/
def State.userCode (s : State) : Prop := ∀ batch, s.batch = some batch → batch.current.isSome = true

instance (s : State) : Decidable s.userCode :=
  match at_ : s.batch with
  | none => isTrue (by simp [State.userCode, at_])
  | some batch => decidable_of_iff (batch.current.isSome = true) (by simp [State.userCode, at_])

/-- `entry.second->run()`. -/
def State.startEntry (s : State) (batch : Batch) (entry : Entry) (rest : List Entry) : State :=
  let started := { s with batch := some { batch with current := some entry, rest := rest } }
  match s.queue.heap entry.timer with
  | none => { started with queue := s.queue.fail }
  | some value => { started with started := s.started ++ [value.sequence] }

def step (s : State) : Action → Option State
  | .create timer when interval =>
    if s.queue.heap timer = none ∧ 0 < timer ∧ timer < uintptrMax then
      some { s with
        queue := { s.queue with
          heap := Function.update s.queue.heap timer (some (.create when interval (s.numCreated + 1))) }
        numCreated := s.numCreated + 1
        incoming := s.incoming ++ [timer] }
    else none
  | .createElsewhere => some { s with numCreated := s.numCreated + 1 }
  | .addTimerInLoop timer clock =>
    if timer ∈ s.incoming ∧ s.userCode then
      some { s with queue := s.queue.addTimerInLoop timer clock, incoming := s.incoming.erase timer }
    else none
  | .cancelInLoop id clock =>
    if s.userCode then some { s with queue := s.queue.cancelInLoop id clock } else none
  | .handleRead now =>
    match s.batch with
    | none =>
      some { s with
        queue := { (s.queue.readTimerfd now).getExpired now with
          callingExpiredTimers := true, cancelingTimers := ∅ }
        batch := some ⟨now, [], none, s.queue.expired now⟩ }
    | some _ => none
  | .run =>
    match s.batch with
    | some ⟨now, visited, none, entry :: rest⟩ =>
      some (s.startEntry ⟨now, visited, none, entry :: rest⟩ entry rest)
    | _ => none
  | .returned =>
    match s.batch with
    | some ⟨now, visited, some entry, rest⟩ =>
      some { s with batch := some ⟨now, visited ++ [entry], none, rest⟩ }
    | _ => none
  | .reset clock =>
    match s.batch with
    | some ⟨now, visited, none, []⟩ =>
      some { s with
        queue := TimerQueue.reset { s.queue with callingExpiredTimers := false } visited now clock
        batch := none }
    | _ => none

end Hvnetpp.Timers
