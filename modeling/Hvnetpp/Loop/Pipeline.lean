import Mathlib.Data.List.Nodup
import Hvnetpp.Mpsc.Access
import Hvnetpp.Loop.Model

namespace Hvnetpp.Loop

open Machine

variable {ι : Type}

abbrev Queue (ι : Type) := Mpsc.State ι (Option (Functor ι))

def Caller.held : Caller ι → Option (Functor ι)
  | .holding f => some f
  | _ => none

/-- The functor of a reservation: still with its caller until the pointer is stored in the node. -/
def State.cellFunctor (s : State ι) (cell : Mpsc.Cell ι (Option (Functor ι))) : Option (Functor ι) :=
  match cell.stage with
  | .reserved => (s.callers cell.owner).held
  | .written pointer | .committed pointer _ | .retired pointer => pointer

def State.functorAt (s : State ι) (i : Nat) : Option (Functor ι) :=
  (s.queue.cells[i]?).bind s.cellFunctor

def Phase.ahead : Phase ι → Nat
  | .running _ | .ran => 1
  | _ => 0

def Phase.rest : Phase ι → List (Functor ι)
  | .serving rest | .executing _ rest => rest
  | _ => []

def Phase.current : Phase ι → Option (Functor ι)
  | .running f | .executing f _ => some f
  | _ => none

/-- The first reservation whose functor has not been started. -/
def State.front (s : State ι) : Nat := s.queue.popped + s.phase.ahead

/-- The functors waiting in the ring, in reservation order. -/
def State.ringFunctors (s : State ι) : List (Functor ι) :=
  (List.range' s.front (s.queue.cells.length - s.front)).filterMap s.functorAt

/-- Every functor handed to the loop: those started, then those waiting, by container. -/
def State.pipeline (s : State ι) : List (Functor ι) :=
  s.started ++ s.phase.rest ++ s.ringFunctors ++ s.pendingFunctors

/-- The functor is still its caller's alone: no slot is reserved for it. -/
def State.inHand (s : State ι) (f : Functor ι) : Prop :=
  s.callers f.caller = .holding f ∧ ∀ node, s.queue.producers f.caller ≠ .reserved node

def State.handed (s : State ι) (f : Functor ι) : Prop := f.seq < s.calls f.caller ∧ ¬ s.inHand f

def CallerAt (s : State ι) (t : ι) : Caller ι → Prop
  | .outside | .quitting => s.queue.producers t = .idle
  | .holding f => f.caller = t ∧ f.seq + 1 = s.calls t ∧ ∀ node, s.queue.producers t ≠ .written node
  | .released f => f.caller = t ∧ f.seq + 1 = s.calls t ∧ ∃ node, s.queue.producers t = .written node
  | .waking f => f.caller = t ∧ f.seq + 1 = s.calls t ∧ s.queue.producers t = .idle

def PhaseAt (s : State ι) : Phase ι → Prop
  | .stopped | .polling | .dispatching _ | .handling _ =>
    s.queue.consumer = .idle ∧ s.callingPendingFunctors = false
  | .draining => s.queue.buffer.valid = true ∧ s.callingPendingFunctors = true ∧
    ∀ node payload, s.queue.consumer ≠ .reading node payload ∧ s.queue.consumer ≠ .cleared node payload
  | .running f => s.queue.buffer.valid = true ∧ s.callingPendingFunctors = true ∧
    ∃ node, s.queue.consumer = .reading node (some f)
  | .ran => s.queue.buffer.valid = true ∧ s.callingPendingFunctors = true ∧
    ∃ node payload, s.queue.consumer = .reading node payload ∨ s.queue.consumer = .cleared node payload
  | .swapping | .serving _ | .executing _ _ =>
    s.queue.consumer = .idle ∧ s.callingPendingFunctors = true

/-- Either the ring could not be mapped and is never touched, or it keeps the queue invariant. -/
def Backed (q : Queue ι) : Prop :=
  q = .initial ι _ pendingOrder false ∨ Mpsc.Inv q

structure Inv (s : State ι) : Prop where
  backed : Backed s.queue
  callers : ∀ t, CallerAt s t (s.callers t)
  phase : PhaseAt s s.phase
  entries : ∀ (i : Nat) cell, s.queue.cells[i]? = some cell → ∃ f, s.cellFunctor cell = some f
  history : s.started = s.finished ++ s.phase.current.toList
  nodup : s.pipeline.Nodup
  passed : ∀ f, f ∈ s.pipeline ↔ s.handed f

theorem Backed.inv {q : Queue ι} (backed : Backed q) (valid : q.buffer.valid = true) : Mpsc.Inv q := by
  rcases backed with rfl | inv
  · cases valid
  · exact inv

theorem Inv.queue {s : State ι} (inv : Inv s) (thread : ι) (busy : s.queue.producers thread ≠ .idle) :
    Mpsc.Inv s.queue := by
  rcases inv.backed with initial | queue
  · rw [initial] at busy
    exact absurd rfl busy
  · exact queue

theorem Inv.initial (threadId : ι) (mapped : Bool) : Inv (State.initial threadId mapped) where
  backed := by
    cases mapped
    · exact .inl rfl
    · exact .inr (Mpsc.Inv.initial (by decide) (by decide))
  callers := fun _ => rfl
  phase := ⟨rfl, rfl⟩
  entries := by intro i cell present; simp [State.initial, Mpsc.State.initial] at present
  history := rfl
  nodup := by
    simp [State.pipeline, State.ringFunctors, State.initial, Mpsc.State.initial, Phase.rest]
  passed := by
    intro f
    simp [State.handed, State.pipeline, State.ringFunctors, State.initial, Mpsc.State.initial, Phase.rest]

theorem ringFunctors_congr {s t : State ι} (front : t.front = s.front)
    (length : t.queue.cells.length = s.queue.cells.length)
    (same : ∀ i, t.functorAt i = s.functorAt i) : t.ringFunctors = s.ringFunctors := by
  have pointwise : t.functorAt = s.functorAt := funext same
  rw [State.ringFunctors, State.ringFunctors, front, length, pointwise]

/-- No functor changes its container or its place there. -/
structure Still (s t : State ι) : Prop where
  settled : t.started ++ t.phase.rest = s.started ++ s.phase.rest
  ring : t.ringFunctors = s.ringFunctors
  pending : t.pendingFunctors = s.pendingFunctors

theorem Still.pipeline {s t : State ι} (still : Still s t) : t.pipeline = s.pipeline := by
  rw [State.pipeline, State.pipeline, still.settled, still.ring, still.pending]

/-- What one action can do to the functors handed to the loop. -/
inductive Effect (s t : State ι) : Action ι → Prop
  | still {action : Action ι} (kept : Still s t) : Effect s t action
  | reserved {thread : ι} (f : Functor ι) (held : s.callers thread = .holding f)
      (won : s.queue.attempt thread = some s.queue.buffer.tail)
      (settled : t.started ++ t.phase.rest = s.started ++ s.phase.rest)
      (ring : t.ringFunctors = s.ringFunctors ++ [f]) (pending : t.pendingFunctors = s.pendingFunctors) :
      Effect s t (.exchange thread false)
  | pushed {thread : ι} (f : Functor ι) (held : s.callers thread = .holding f)
      (free : ∀ node, s.queue.producers thread ≠ .reserved node)
      (settled : t.started ++ t.phase.rest = s.started ++ s.phase.rest)
      (ring : t.ringFunctors = s.ringFunctors) (pending : t.pendingFunctors = s.pendingFunctors ++ [f]) :
      Effect s t (.push thread)
  | taken (f : Functor ι) (settled : t.started ++ t.phase.rest = s.started ++ s.phase.rest ++ [f])
      (ring : s.ringFunctors = f :: t.ringFunctors) (pending : t.pendingFunctors = s.pendingFunctors) :
      Effect s t .take
  | swapped (settled : t.started ++ t.phase.rest = s.started ++ s.phase.rest ++ s.pendingFunctors)
      (ring : t.ringFunctors = s.ringFunctors) (pending : t.pendingFunctors = []) : Effect s t .swap

theorem cellFunctor_congr {s t : State ι} {cell : Mpsc.Cell ι (Option (Functor ι))}
    (same : cell.stage = .reserved → (t.callers cell.owner).held = (s.callers cell.owner).held) :
    t.cellFunctor cell = s.cellFunctor cell := by
  unfold State.cellFunctor
  cases stage : cell.stage with
  | reserved => exact same stage
  | written pointer => rfl
  | committed pointer id => rfl
  | retired pointer => rfl

/-- A reserved cell's owner is inside the call that reserved it. -/
theorem Inv.reserved_owner {s : State ι} (inv : Inv s) {i : Nat}
    {cell : Mpsc.Cell ι (Option (Functor ι))} (present : s.queue.cells[i]? = some cell)
    (stage : cell.stage = .reserved) :
    s.queue.producers cell.owner = .reserved cell.node ∧ s.queue.ticket cell.owner = i := by
  rcases inv.backed with initial | queue
  · rw [initial] at present
    simp [Mpsc.State.initial] at present
  · have owned := queue.owned i cell present
    unfold Mpsc.Owned at owned
    rw [stage] at owned
    exact owned

theorem Inv.written_owner {s : State ι} (inv : Inv s) {i : Nat}
    {cell : Mpsc.Cell ι (Option (Functor ι))} (present : s.queue.cells[i]? = some cell)
    {pointer : Option (Functor ι)} (stage : cell.stage = .written pointer) :
    s.queue.producers cell.owner = .written cell.node ∧ s.queue.ticket cell.owner = i := by
  rcases inv.backed with initial | queue
  · rw [initial] at present
    simp [Mpsc.State.initial] at present
  · have owned := queue.owned i cell present
    unfold Mpsc.Owned at owned
    rw [stage] at owned
    exact owned

end Hvnetpp.Loop
