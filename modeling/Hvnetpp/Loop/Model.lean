import Hvnetpp.Mpsc.Model

namespace Hvnetpp.Loop

open Machine

/-- The functor object passed by the `seq`-th call of `queueInLoop` on thread `caller`. -/
structure Functor (ι : Type) where
  caller : ι
  seq : Nat
  deriving DecidableEq, Repr

-- The functor is `holding` by the `unique_ptr` (or the parameter, without a ring), `released` once its
-- pointer is in the node, and `waking` once it is published and only the wakeup check is left.
inductive Caller (ι : Type) where
  | outside
  | holding (functor : Functor ι)
  | released (functor : Functor ι)
  | waking (functor : Functor ι)
  | quitting
  deriving DecidableEq, Repr

/-- An active channel: the wakeup channel, or any other, whose handler runs user code. -/
inductive Event where
  | wakeup
  | other
  deriving DecidableEq, Repr

-- `draining` is the `while (true)` of `doPendingFunctors`, with the place inside `peek` kept by the queue's
-- consumer; `serving` and `executing` are its range-for over the swapped-out vector.
inductive Phase (ι : Type) where
  | stopped
  | polling
  | dispatching (rest : List Event)
  | handling (rest : List Event)
  | draining
  | running (functor : Functor ι)
  | ran
  | swapping
  | serving (rest : List (Functor ι))
  | executing (functor : Functor ι) (rest : List (Functor ι))
  deriving DecidableEq, Repr

variable {ι : Type}

/-- Where the loop thread is outside the library: before and after `loop()`, in a handler, in a functor. -/
def Phase.userCode : Phase ι → Bool
  | .stopped | .handling _ | .running _ | .executing _ _ => true
  | _ => false

/-- One `EventLoop` and the threads that call it. `calls`, `started` and `finished` are history: how often
    each thread has called `queueInLoop`, and the functors in the order their execution began and ended. -/
structure State (ι : Type) where
  threadId : ι
  queue : Mpsc.State ι (Option (Functor ι))
  callers : ι → Caller ι
  pendingFunctors : List (Functor ι)
  callingPendingFunctors : Bool
  wakeupFd : Nat
  quit : Bool
  phase : Phase ι
  calls : ι → Nat
  started : List (Functor ι)
  finished : List (Functor ι)

def pendingOrder : Nat := 16

/-- A constructed loop, before `loop()`; `mapped` is whether the ring could be mapped. -/
def State.initial (threadId : ι) (mapped : Bool) : State ι :=
  { threadId := threadId, queue := .initial ι _ pendingOrder mapped, callers := fun _ => .outside,
    pendingFunctors := [], callingPendingFunctors := false, wakeupFd := 0, quit := false,
    phase := .stopped, calls := fun _ => 0, started := [], finished := [] }

/-- `write(wakeupFd_, 1)`: an eventfd refuses to pass `2^64 - 2`. -/
def signal (counter : Nat) : Nat := if counter < 2 ^ 64 - 2 then counter + 1 else counter

inductive Peek where
  | head
  | tail
  | node
  | id
  deriving DecidableEq, Repr

def Peek.access : Peek → Mpsc.Action ι (Option (Functor ι))
  | .head => .peekHead
  | .tail => .peekTail
  | .node => .peekNode
  | .id => .peekId

inductive Action (ι : Type) where
  | call (t : ι)
  | loadHead (t : ι)
  | loadTail (t : ι)
  | exchange (t : ι) (spurious : Bool)
  | store (t : ι)
  | commit (t : ι)
  | push (t : ι)
  | wake (t : ι)
  | quit (t : ι)
  | quitWake (t : ι)
  | enter
  | poll (batch : List Event)
  | dispatch
  | handled
  | drain
  | peek (access : Peek)
  | take
  | done
  | clear
  | advance
  | swap
  | serve
  | served
  | leave
  deriving DecidableEq, Repr

section Steps

variable [DecidableEq ι]

def State.setCaller (s : State ι) (t : ι) (place : Caller ι) : State ι :=
  { s with callers := Function.update s.callers t place }

def State.mayCall (s : State ι) (t : ι) : Prop :=
  s.callers t = .outside ∧ (t = s.threadId → s.phase.userCode = true)

instance (s : State ι) (t : ι) : Decidable (s.mayCall t) :=
  inferInstanceAs (Decidable (_ ∧ (_ → _)))

/-- One access of `reserve`, which `queueInLoop` calls only on a valid ring. -/
def State.reserving (s : State ι) (t : ι) (access : Mpsc.Action ι (Option (Functor ι))) :
    Option (State ι) :=
  match s.callers t with
  | .holding _ =>
    if s.queue.buffer.valid then (Mpsc.step s.queue access).map fun q => { s with queue := q } else none
  | _ => none

def State.wakeup (s : State ι) : State ι := { s with wakeupFd := signal s.wakeupFd }

def callerStep (s : State ι) : Action ι → Option (State ι)
  | .call t =>
    if s.mayCall t then
      some { s.setCaller t (.holding ⟨t, s.calls t⟩) with
        calls := Function.update s.calls t (s.calls t + 1) }
    else none
  | .loadHead t => s.reserving t (.loadHead t)
  | .loadTail t => s.reserving t (.loadTail t)
  | .exchange t spurious => s.reserving t (.compareExchange t spurious)
  | .store t =>
    match s.callers t with
    | .holding f =>
      (Mpsc.step s.queue (.store t (some f))).map fun q => { s.setCaller t (.released f) with queue := q }
    | _ => none
  | .commit t =>
    match s.callers t with
    | .released f =>
      (Mpsc.step s.queue (.commit t 1)).map fun q => { s.setCaller t (.waking f) with queue := q }
    | _ => none
  | .push t =>
    match s.callers t with
    | .holding f =>
      -- without a ring `reserve` is not called; with one it has just returned `nullptr`
      (if s.queue.buffer.valid then Mpsc.step s.queue (.giveUp t) else some s.queue).map fun q =>
        { s.setCaller t (.waking f) with queue := q, pendingFunctors := s.pendingFunctors ++ [f] }
    | _ => none
  | .wake t =>
    match s.callers t with
    | .waking _ =>
      some (if t ≠ s.threadId ∨ s.callingPendingFunctors = true then (s.setCaller t .outside).wakeup
        else s.setCaller t .outside)
    | _ => none
  | .quit t =>
    if s.mayCall t then
      some { (if t = s.threadId then s else s.setCaller t .quitting) with quit := true }
    else none
  | .quitWake t =>
    match s.callers t with
    | .quitting => some (s.setCaller t .outside).wakeup
    | _ => none
  | _ => none

def State.afterPeek (s : State ι) (q : Mpsc.State ι (Option (Functor ι))) : State ι :=
  match q.consumer with
  | .idle => { s with queue := q, phase := .swapping }
  | _ => { s with queue := q }

/-- `FunctorTask& task = node->data`: a null pointer is skipped and the node consumed. -/
def State.afterRead (s : State ι) (q : Mpsc.State ι (Option (Functor ι))) : State ι :=
  match q.consumer with
  | .reading _ (some f) => { s with queue := q, phase := .running f, started := s.started ++ [f] }
  | _ => { s with queue := q, phase := .ran }

def loopStep (s : State ι) : Action ι → Phase ι → Option (State ι)
  | .enter, .stopped => if s.quit then none else some { s with phase := .polling }
  | .poll batch, .polling =>
    if Event.wakeup ∈ batch → 0 < s.wakeupFd then some { s with phase := .dispatching batch } else none
  | .dispatch, .dispatching (.wakeup :: rest) => some { s with phase := .dispatching rest, wakeupFd := 0 }
  | .dispatch, .dispatching (.other :: rest) => some { s with phase := .handling rest }
  | .handled, .handling rest => some { s with phase := .dispatching rest }
  | .drain, .dispatching [] =>
    some { s with
      callingPendingFunctors := true
      phase := if s.queue.buffer.valid then .draining else .swapping }
  | .peek access, .draining => (Mpsc.step s.queue access.access).map s.afterPeek
  | .take, .draining => (Mpsc.step s.queue .read).map s.afterRead
  | .done, .running f => some { s with phase := .ran, finished := s.finished ++ [f] }
  | .clear, .ran => (Mpsc.step s.queue .clear).map fun q => { s with queue := q }
  | .advance, .ran => (Mpsc.step s.queue .advance).map fun q => { s with queue := q, phase := .draining }
  | .swap, .swapping => some { s with phase := .serving s.pendingFunctors, pendingFunctors := [] }
  | .serve, .serving (f :: rest) =>
    some { s with phase := .executing f rest, started := s.started ++ [f] }
  | .served, .executing f rest => some { s with phase := .serving rest, finished := s.finished ++ [f] }
  | .leave, .serving [] =>
    some { s with
      callingPendingFunctors := false
      phase := if s.quit then .stopped else .polling }
  | _, _ => none

def Action.ofCaller : Action ι → Bool
  | .call _ | .loadHead _ | .loadTail _ | .exchange _ _ | .store _ | .commit _ | .push _ | .wake _
  | .quit _ | .quitWake _ => true
  | _ => false

/-- A thread takes one step, or the loop thread does while it is in no call of its own. -/
def step (s : State ι) (action : Action ι) : Option (State ι) :=
  if action.ofCaller then callerStep s action
  else if s.callers s.threadId = .outside then loopStep s action s.phase
  else none

end Steps

/-- No exchange succeeds after `tail` has moved by `2^32 - size` bytes since the attempt loaded `head`. -/
def Bounded (s : State ι) : Action ι → Prop
  | .exchange t spurious => Mpsc.TailBounded s.queue (.compareExchange t spurious)
  | _ => True

end Hvnetpp.Loop
