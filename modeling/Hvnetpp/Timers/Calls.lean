import Hvnetpp.Loop.Model
import Hvnetpp.Timers.History

namespace Hvnetpp.Timers

open Machine

/-- What `addTimer` and `cancel` bind for `runInLoop`. -/
inductive Request where
  | addTimerInLoop (timer : Nat)
  | cancelInLoop (id : TimerId)
  deriving DecidableEq, Repr

/-- An `EventLoop` with its `TimerQueue`. `requests` are the bound calls that queued functors still have to
    make, `adding` are the timers whose `addTimer` has not returned yet, and `clock` is the latest reading.
    `ids` and `cancels` are history: the ids that `addTimer` has returned, and those `cancelInLoop` was called
    with, each with the time of the call. `dangling` records that `addTimer` read a deleted timer's number. -/
structure System (ι : Type) where
  loop : Loop.State ι
  history : History
  requests : Loop.Functor ι → Option Request
  adding : ι → Option Nat
  clock : Int
  ids : List TimerId
  cancels : List (TimerId × Int)
  dangling : Bool

variable {ι : Type}

def System.initial (threadId : ι) (mapped : Bool) (numCreated : Nat) : System ι :=
  { loop := .initial threadId mapped, history := .initial numCreated, requests := fun _ => none,
    adding := fun _ => none, clock := 0, ids := [], cancels := [], dangling := false }

def functorOf : Loop.Phase ι → Option (Loop.Functor ι)
  | .running f => some f
  | .executing f _ => some f
  | _ => none

/-- The bound call that the functor being executed has still to make. -/
def System.request (s : System ι) : Option Request := (functorOf s.loop.phase).bind s.requests

def handling : Loop.Phase ι → Bool
  | .handling _ => true
  | _ => false

inductive Call (ι : Type) where
  | loop (action : Loop.Action ι)
  | addTimer (thread : ι) (timer : Nat) (when interval clock : Int)
  | added (thread : ι)
  | cancel (thread : ι) (id : TimerId) (clock : Int)
  | execute (clock : Int)
  | handleRead (now : Int)
  | run
  | returned
  | reset (clock : Int)
  | elsewhere
  deriving DecidableEq, Repr

def System.act (s : System ι) (action : Action) : Option (System ι) :=
  (s.history.step action).map fun history => { s with history := history }

/-- `steady_clock::now()`. -/
def System.read (s : System ι) (clock : Int) : Option (System ι) :=
  if s.clock ≤ clock then some { s with clock := clock } else none

def System.addTimerInLoop (s : System ι) (timer : Nat) (clock : Int) : Option (System ι) :=
  (s.read clock).bind fun s => s.act (.addTimerInLoop timer clock)

def System.cancelInLoop (s : System ι) (id : TimerId) (clock : Int) : Option (System ι) :=
  (s.read clock).bind fun s =>
    (s.act (.cancelInLoop id clock)).map fun s => { s with cancels := s.cancels ++ [(id, clock)] }

/-- `return TimerId(timer, timer->sequence())`. -/
def System.returnId (s : System ι) (timer : Nat) : System ι :=
  match s.history.timers.queue.heap timer with
  | some value => { s with ids := s.ids ++ [⟨timer, value.sequence⟩] }
  | none => { s with dangling := true }

section Steps

variable [DecidableEq ι]

/-- The thread is in no call, and the loop thread is not in library code either. -/
def System.mayCall (s : System ι) (thread : ι) : Prop :=
  s.loop.mayCall thread ∧ s.adding thread = none ∧
    (thread = s.loop.threadId → s.request = none ∧ s.history.timers.userCode)

instance (s : System ι) (thread : ι) : Decidable (s.mayCall thread) :=
  inferInstanceAs (Decidable (_ ∧ _ ∧ (_ → _)))

/-- The loop thread is inside `TimerQueue::handleRead`, or about to enter it. -/
def System.inHandler (s : System ι) : Prop :=
  handling s.loop.phase = true ∧ s.loop.callers s.loop.threadId = .outside

instance (s : System ι) : Decidable s.inHandler := inferInstanceAs (Decidable (_ ∧ _))

/-- `queueInLoop` with a bound call, up to the point where the functor object exists. -/
def System.queueInLoop (s : System ι) (thread : ι) (request : Request) : Option (System ι) :=
  (Loop.step s.loop (.call thread)).map fun loop =>
    { s with
      loop := loop
      requests := Function.update s.requests ⟨thread, s.loop.calls thread⟩ (some request) }

def System.addTimer (s : System ι) (thread : ι) (timer : Nat) (when interval clock : Int) : Option (System ι) :=
  (s.act (.create timer when interval)).bind fun s =>
    if thread = s.loop.threadId then (s.addTimerInLoop timer clock).map fun s => s.returnId timer
    else
      (s.queueInLoop thread (.addTimerInLoop timer)).map fun s =>
        { s with adding := Function.update s.adding thread (some timer) }

def System.cancel (s : System ι) (thread : ι) (id : TimerId) (clock : Int) : Option (System ι) :=
  if thread = s.loop.threadId then s.cancelInLoop id clock else s.queueInLoop thread (.cancelInLoop id)

/-- The functor makes its bound call. -/
def System.execute (s : System ι) (clock : Int) : Option (System ι) :=
  (functorOf s.loop.phase).bind fun functor =>
    let done := { s with requests := Function.update s.requests functor none }
    match s.requests functor with
    | some (.addTimerInLoop timer) => done.addTimerInLoop timer clock
    | some (.cancelInLoop id) => done.cancelInLoop id clock
    | none => none

/-- What the loop's own steps have to wait for: a functor for its bound call, a handler for `handleRead`, a
    new call for the one the thread is in. -/
def System.mayLoop (s : System ι) : Loop.Action ι → Prop
  | .call thread => s.mayCall thread
  | .quit thread => s.mayCall thread
  | .done => s.request = none
  | .served => s.request = none
  | .handled => s.history.timers.batch = none
  | _ => True

instance (s : System ι) : (action : Loop.Action ι) → Decidable (s.mayLoop action)
  | .call thread => inferInstanceAs (Decidable (s.mayCall thread))
  | .quit thread => inferInstanceAs (Decidable (s.mayCall thread))
  | .done => inferInstanceAs (Decidable (s.request = none))
  | .served => inferInstanceAs (Decidable (s.request = none))
  | .handled => inferInstanceAs (Decidable (s.history.timers.batch = none))
  | .loadHead _ | .loadTail _ | .exchange _ _ | .store _ | .commit _ | .push _ | .wake _ | .quitWake _
  | .enter | .poll _ | .dispatch | .drain | .peek _ | .take | .clear | .advance | .swap | .serve | .leave =>
    isTrue trivial

def System.step (s : System ι) : Call ι → Option (System ι)
  | .loop action =>
    if s.mayLoop action then (Loop.step s.loop action).map fun loop => { s with loop := loop } else none
  | .addTimer thread timer when interval clock =>
    if s.mayCall thread then s.addTimer thread timer when interval clock else none
  | .added thread =>
    match s.adding thread with
    | some timer =>
      if s.loop.callers thread = .outside then
        some ({ s with adding := Function.update s.adding thread none }.returnId timer)
      else none
    | none => none
  | .cancel thread id clock =>
    if s.mayCall thread ∧ id ∈ s.ids then s.cancel thread id clock else none
  | .execute clock => if s.loop.callers s.loop.threadId = .outside then s.execute clock else none
  | .handleRead now => if s.inHandler then (s.read now).bind fun s => s.act (.handleRead now) else none
  | .run => if s.inHandler then s.act .run else none
  | .returned => if s.inHandler then s.act .returned else none
  | .reset clock => if s.inHandler then (s.read clock).bind fun s => s.act (.reset clock) else none
  | .elsewhere => s.act .createElsewhere

end Steps

end Hvnetpp.Timers
