import Mathlib.Algebra.Order.Ring.Nat
import Mathlib.Logic.Function.Basic
import Hvnetpp.Machine.Runs

namespace Hvnetpp.Mpsc

/-- `sizeof(Node)`. -/
def nodeSize : Nat := 64

structure Node (α : Type) where
  data : α
  id : BitVec 32

/-- What `memset(node, 0, sizeof(Node))` leaves; the default payload is the all-zero one. -/
def Node.zeroed {α : Type} [Inhabited α] : Node α := ⟨default, 0⟩

/-- `internal::CircularBuffer`. The mapping is one node per byte offset; the second mapping of the same
    pages is never reached, since every node ends inside the first. -/
structure CircularBuffer (α : Type) where
  order : Nat
  valid : Bool
  head : BitVec 32
  tail : BitVec 32
  data : Nat → Node α

/-- A fresh buffer; `mapped` is whether `createBufferMirror` succeeded. -/
def CircularBuffer.create (α : Type) [Inhabited α] (order : Nat) (mapped : Bool) : CircularBuffer α :=
  { order := order, valid := mapped, head := 0, tail := 0, data := fun _ => .zeroed }

variable {ι α : Type}

def CircularBuffer.size (buffer : CircularBuffer α) : Nat := 2 ^ buffer.order

def CircularBuffer.getPointer (buffer : CircularBuffer α) (offset : BitVec 32) : Option Nat :=
  if buffer.valid then some (offset.toNat &&& (buffer.size - 1)) else none

def CircularBuffer.headPtr (buffer : CircularBuffer α) : Option Nat := buffer.getPointer buffer.head

/-- The overflow check of `reserve`, in `unsigned int` arithmetic: `w - r > s - nodeSize`. -/
def CircularBuffer.isFull (buffer : CircularBuffer α) (r w : BitVec 32) : Bool :=
  BitVec.ult (BitVec.ofNat 32 buffer.size - BitVec.ofNat 32 nodeSize) (w - r)

/-- Where a producer stands in `reserve` and `commit`. A failed exchange goes back to `idle`, the top of
    the retry loop; `full` is a `reserve` that returned `nullptr`. -/
inductive Producer where
  | idle
  | headLoaded (r : BitVec 32)
  | tailLoaded (r w : BitVec 32)
  | full
  | reserved (node : Nat)
  | written (node : Nat)
  deriving DecidableEq, Repr

/-- Where the consumer stands in `peek`, the read of the payload and `consume`. -/
inductive Consumer (α : Type) where
  | idle
  | headLoaded (h : BitVec 32)
  | nonempty
  | pointing (node : Nat)
  | peeked (node : Nat)
  | reading (node : Nat) (payload : α)
  | cleared (node : Nat) (payload : α)
  deriving DecidableEq, Repr

inductive Stage (α : Type) where
  | reserved
  | written (payload : α)
  | committed (payload : α) (id : BitVec 32)
  | retired (payload : α)
  deriving DecidableEq, Repr

structure Cell (ι α : Type) where
  owner : ι
  node : Nat
  stage : Stage α
  deriving DecidableEq, Repr

def Stage.write (payload : α) (_ : Stage α) : Stage α := .written payload

def Stage.commit (id : BitVec 32) : Stage α → Stage α
  | .written payload => .committed payload id
  | stage => stage

def Stage.retire : Stage α → Stage α
  | .committed payload _ => .retired payload
  | stage => stage

def Stage.payload : Stage α → Option α
  | .committed payload _ | .retired payload => some payload
  | _ => none

def Cell.progress (change : Stage α → Stage α) (cell : Cell ι α) : Cell ι α :=
  { cell with stage := change cell.stage }

/-- The queue, its producers and its consumer. `cells`, `ticket` and `seen` are history: the reservations
    in the order of their exchanges, the place of each producer's last one, and the number of reservations
    at its last load of `head`. No step reads them. -/
structure State (ι α : Type) where
  buffer : CircularBuffer α
  producers : ι → Producer
  consumer : Consumer α
  consumed : List α
  cells : List (Cell ι α)
  ticket : ι → Nat
  seen : ι → Nat

def State.initial (ι α : Type) [Inhabited α] (order : Nat) (mapped : Bool) : State ι α :=
  { buffer := .create α order mapped, producers := fun _ => .idle, consumer := .idle, consumed := [],
    cells := [], ticket := fun _ => 0, seen := fun _ => 0 }

inductive Action (ι α : Type) where
  | loadHead (p : ι)
  | loadTail (p : ι)
  | compareExchange (p : ι) (spurious : Bool)
  | giveUp (p : ι)
  | store (p : ι) (payload : α)
  | commit (p : ι) (id : BitVec 32)
  | peekHead
  | peekTail
  | peekNode
  | peekId
  | read
  | clear
  | advance
  deriving DecidableEq, Repr

section Steps

variable [DecidableEq ι] [Inhabited α]

def State.setProducer (s : State ι α) (p : ι) (at_ : Producer) : State ι α :=
  { s with producers := Function.update s.producers p at_ }

def State.setNode (s : State ι α) (node : Nat) (value : Node α) : State ι α :=
  { s with buffer := { s.buffer with data := Function.update s.buffer.data node value } }

def State.setCell (s : State ι α) (i : Nat) (change : Stage α → Stage α) : State ι α :=
  { s with cells := s.cells.modify i (Cell.progress change) }

def loadHead (s : State ι α) (p : ι) : State ι α :=
  if s.buffer.valid then
    { s.setProducer p (.headLoaded s.buffer.head) with seen := Function.update s.seen p s.cells.length }
  else s.setProducer p .full

def loadTail (s : State ι α) (p : ι) (r : BitVec 32) : State ι α :=
  if s.buffer.isFull r s.buffer.tail then s.setProducer p .full
  else s.setProducer p (.tailLoaded r s.buffer.tail)

/-- A successful exchange: `tail` moves by one node and the producer gets `getPointer(w)`. -/
def reserve (s : State ι α) (p : ι) (w : BitVec 32) (node : Nat) : State ι α :=
  { s.setProducer p (.reserved node) with
    buffer := { s.buffer with tail := w + BitVec.ofNat 32 nodeSize }
    cells := s.cells ++ [⟨p, node, .reserved⟩]
    ticket := Function.update s.ticket p s.cells.length }

def compareExchange (s : State ι α) (p : ι) (w : BitVec 32) (spurious : Bool) : State ι α :=
  if s.buffer.tail = w ∧ spurious = false then
    match s.buffer.getPointer w with
    | some node => reserve s p w node
    | none => { s.setProducer p .full with buffer := { s.buffer with tail := w + BitVec.ofNat 32 nodeSize } }
  else s.setProducer p .idle

def store (s : State ι α) (p : ι) (node : Nat) (payload : α) : State ι α :=
  ((s.setNode node { s.buffer.data node with data := payload }).setCell (s.ticket p)
    (Stage.write payload)).setProducer p (.written node)

def commit (s : State ι α) (p : ι) (node : Nat) (id : BitVec 32) : State ι α :=
  ((s.setNode node { s.buffer.data node with id := id }).setCell (s.ticket p)
    (Stage.commit id)).setProducer p .idle

/-- The `memset` of `consume`. -/
def clear (s : State ι α) (node : Nat) (payload : α) : State ι α :=
  { (s.setNode node .zeroed).setCell s.consumed.length Stage.retire with
    consumer := .cleared node payload }

/-- The `fetch_add` of `consume`. -/
def advance (s : State ι α) (payload : α) : State ι α :=
  { s with
    buffer := { s.buffer with head := s.buffer.head + BitVec.ofNat 32 nodeSize }
    consumer := .idle
    consumed := s.consumed ++ [payload] }

def producerStep (s : State ι α) (p : ι) : Action ι α → Producer → Option (State ι α)
  | .loadHead _, .idle => some (loadHead s p)
  | .loadTail _, .headLoaded r => some (loadTail s p r)
  | .compareExchange _ spurious, .tailLoaded _ w => some (compareExchange s p w spurious)
  | .giveUp _, .full => some (s.setProducer p .idle)
  | .store _ payload, .reserved node => some (store s p node payload)
  | .commit _ id, .written node => if id ≠ 0 then some (commit s p node id) else none
  | _, _ => none

/-- One atomic access by the consumer. `peek` that returns `nullptr` goes back to `idle`. -/
def consumerStep (s : State ι α) : Action ι α → Consumer α → Option (State ι α)
  | .peekHead, .idle => some (if s.buffer.valid then { s with consumer := .headLoaded s.buffer.head } else s)
  | .peekTail, .headLoaded h =>
    some (if h = s.buffer.tail then { s with consumer := .idle } else { s with consumer := .nonempty })
  | .peekNode, .nonempty =>
    some (match s.buffer.headPtr with
      | some node => { s with consumer := .pointing node }
      | none => { s with consumer := .idle })
  | .peekId, .pointing node =>
    some (if (s.buffer.data node).id ≠ 0 then { s with consumer := .peeked node }
      else { s with consumer := .idle })
  | .read, .peeked node => some { s with consumer := .reading node (s.buffer.data node).data }
  | .clear, .reading node payload => some (clear s node payload)
  | .advance, .cleared _ payload => some (advance s payload)
  | _, _ => none

def step (s : State ι α) (action : Action ι α) : Option (State ι α) :=
  match action with
  | .loadHead p | .loadTail p | .compareExchange p _ | .giveUp p | .store p _ | .commit p _ =>
    producerStep s p action (s.producers p)
  | _ => consumerStep s action s.consumer

end Steps

def State.attempt (s : State ι α) (p : ι) : Option (BitVec 32) :=
  match s.producers p with
  | .tailLoaded _ w => some w
  | _ => none

/-- An exchange that succeeds does so before `tail` has moved by `2^32 - size` bytes since the same
    attempt loaded `head`. -/
def TailBounded (s : State ι α) : Action ι α → Prop
  | .compareExchange p _ => s.attempt p = some s.buffer.tail →
      nodeSize * (s.cells.length - s.seen p) < 2 ^ 32 - s.buffer.size
  | _ => True

instance (s : State ι α) (action : Action ι α) : Decidable (TailBounded s action) :=
  match action with
  | .compareExchange p _ => inferInstanceAs (Decidable (s.attempt p = some s.buffer.tail →
      nodeSize * (s.cells.length - s.seen p) < 2 ^ 32 - s.buffer.size))
  | .loadHead _ | .loadTail _ | .giveUp _ | .store _ _ | .commit _ _ | .peekHead | .peekTail
  | .peekNode | .peekId | .read | .clear | .advance => isTrue trivial

end Hvnetpp.Mpsc
