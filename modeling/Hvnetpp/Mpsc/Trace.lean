import Hvnetpp.Machine.HappensBefore
import Hvnetpp.Mpsc.Access

namespace Hvnetpp.Mpsc

open Machine

variable {ι α : Type}

inductive Location where
  | head
  | tail
  | data (node : Nat)
  | id (node : Nat)
  deriving DecidableEq, Repr

def Location.node : Location → Option Nat
  | .data node | .id node => some node
  | .head | .tail => none

/-- The consumer runs on a thread of its own. -/
def Action.thread : Action ι α → Option ι
  | .loadHead p | .loadTail p | .compareExchange p _ | .giveUp p | .store p _ | .commit p _ => some p
  | .peekHead | .peekTail | .peekNode | .peekId | .read | .clear | .advance => none

/-- The accesses of a step with the orders they are made with. `node->data` is plain, and `memset` writes the whole
    node, `id` among it, as plain memory. -/
def State.accesses (s : State ι α) : Action ι α → List (Access Location)
  | .loadHead _ => if s.buffer.valid then [.load .head .relaxed] else []
  | .loadTail _ => [.load .tail .relaxed]
  | .compareExchange p spurious =>
    if s.attempt p = some s.buffer.tail ∧ spurious = false then [.exchange .tail .seqCst]
    else [.load .tail .seqCst]
  | .giveUp _ => []
  | .store p _ =>
    match s.producers p with
    | .reserved node => [.write (.data node)]
    | _ => []
  | .commit p _ =>
    match s.producers p with
    | .written node => [.fence .release, .store (.id node) .release]
    | _ => []
  | .peekHead => if s.buffer.valid then [.load .head .relaxed] else []
  | .peekTail => [.load .tail .acquire]
  | .peekNode => [.load .head .relaxed]
  | .peekId =>
    match s.consumer with
    | .pointing node => [.load (.id node) .acquire]
    | _ => []
  | .read =>
    match s.consumer with
    | .peeked node => [.read (.data node)]
    | _ => []
  | .clear =>
    match s.consumer with
    | .reading node _ => [.write (.data node), .write (.id node)]
    | _ => []
  | .advance => [.fence .release, .exchange .head .relaxed]

/-- The reservation that a thread is at. -/
def State.cellOf (s : State ι α) : Option ι → Nat
  | some p => s.ticket p
  | none => s.popped

/-- An access, with the reservation its thread was at as history. -/
structure Entry (ι : Type) where
  event : Event (Option ι) Location
  cell : Nat
  deriving DecidableEq, Repr

def Entry.node (entry : Entry ι) : Option Nat := entry.event.access.location.bind Location.node

/-- The queue with the trace of all accesses to its memory. -/
structure Traced (ι α : Type) where
  queue : State ι α
  log : List (Entry ι)

def Traced.initial (ι α : Type) [Inhabited α] (order : Nat) : Traced ι α :=
  { queue := .initial ι α order true, log := [] }

def entries (thread : Option ι) (cell : Nat) (accesses : List (Access Location)) : List (Entry ι) :=
  accesses.map fun access => ⟨⟨thread, access⟩, cell⟩

def Traced.step [DecidableEq ι] [Inhabited α] (t : Traced ι α) (action : Action ι α) : Option (Traced ι α) :=
  (Mpsc.step t.queue action).map fun q =>
    { queue := q
      log := t.log ++ entries action.thread (t.queue.cellOf action.thread) (t.queue.accesses action) }

def Traced.Bounded (t : Traced ι α) (action : Action ι α) : Prop := TailBounded t.queue action

instance Traced.decidableBounded (t : Traced ι α) (action : Action ι α) : Decidable (t.Bounded action) :=
  inferInstanceAs (Decidable (TailBounded t.queue action))

def Traced.events (t : Traced ι α) : List (Event (Option ι) Location) := t.log.map Entry.event

/-- The accesses that occur at all. -/
def occurs : Option ι → Access Location → Bool
  | some _, .load .head .relaxed | some _, .load .tail .relaxed | some _, .load .tail .seqCst
  | some _, .exchange .tail .seqCst | some _, .write (.data _) | some _, .fence .release
  | some _, .store (.id _) .release => true
  | none, .load .head .relaxed | none, .load .tail .acquire | none, .load (.id _) .acquire | none, .read (.data _)
  | none, .write (.data _) | none, .write (.id _) | none, .fence .release | none, .exchange .head .relaxed => true
  | _, _ => false

theorem accesses_occur (s : State ι α) (action : Action ι α) {access : Access Location}
    (member : access ∈ s.accesses action) : occurs action.thread access = true := by
  cases action <;> simp only [State.accesses] at member <;> try split at member
  all_goals simp only [List.mem_cons, List.not_mem_nil, or_false] at member
  all_goals first
    | (subst member; rfl)
    | (rcases member with rfl | rfl <;> rfl)

theorem consumer_stores {access : Access Location} {x : Location} {order : MemoryOrder}
    (may : occurs (none : Option ι) access = true) (stores : access.stores = some (x, order)) :
    x = .head ∧ order = .relaxed := by
  cases access <;> cases stores
  · cases x <;> cases may
  · cases x <;> cases order <;> first | exact ⟨rfl, rfl⟩ | cases may

theorem head_loads {thread : Option ι} {access : Access Location} {order : MemoryOrder}
    (may : occurs thread access = true) (loads : access.loads = some (.head, order)) : order = .relaxed := by
  cases access <;> cases loads
  · cases thread <;> cases order <;> first | rfl | cases may
  · cases thread <;> cases order <;> first | rfl | cases may

theorem fences_release {thread : Option ι} {order : MemoryOrder} (may : occurs thread (.fence order) = true) :
    order = .release := by
  cases thread <;> cases order <;> first | rfl | cases may

/-- `peek` has returned a node that is not consumed yet. -/
def Consumer.holds : Consumer α → Bool
  | .peeked _ | .reading _ _ | .cleared _ _ => true
  | .idle | .headLoaded _ | .nonempty | .pointing _ => false

section Steps

variable [DecidableEq ι] [Inhabited α] {s q : State ι α}

/-- The steps by what they do to the reservations, with their accesses. -/
inductive Chronicle (s q : State ι α) : Option ι → List (Access Location) → Prop where
  | quiet (thread : Option ι) (accesses : List (Access Location)) (cells : q.cells = s.cells)
      (consumed : q.consumed = s.consumed) (aside : ∀ access ∈ accesses, access.location.bind Location.node = none)
      (holds : q.consumer.holds = true → s.consumer.holds = true) : Chronicle s q thread accesses
  | reserved (p : ι) (node : Nat) (cells : q.cells = s.cells ++ [⟨p, node, .reserved⟩])
      (consumed : q.consumed = s.consumed) (consumer : q.consumer = s.consumer) :
      Chronicle s q (some p) [.exchange .tail .seqCst]
  | stored (p : ι) (node : Nat) (payload : α) (present : s.cells[s.ticket p]? = some ⟨p, node, .reserved⟩)
      (cells : q.cells = s.cells.modify (s.ticket p) (Cell.progress (Stage.write payload)))
      (consumed : q.consumed = s.consumed) (consumer : q.consumer = s.consumer) :
      Chronicle s q (some p) [.write (.data node)]
  | committed (p : ι) (node : Nat) (payload : α) (id : BitVec 32)
      (present : s.cells[s.ticket p]? = some ⟨p, node, .written payload⟩)
      (cells : q.cells = s.cells.modify (s.ticket p) (Cell.progress (Stage.commit id)))
      (consumed : q.consumed = s.consumed) (consumer : q.consumer = s.consumer) :
      Chronicle s q (some p) [.fence .release, .store (.id node) .release]
  | looked (node : Nat) (cell : Cell ι α) (present : s.cells[s.popped]? = some cell) (own : cell.node = node)
      (cells : q.cells = s.cells) (consumed : q.consumed = s.consumed)
      (found : q.consumer.holds = true →
        ∃ owner payload id, s.cells[s.popped]? = some ⟨owner, node, .committed payload id⟩) :
      Chronicle s q none [.load (.id node) .acquire]
  | read (owner : ι) (node : Nat) (payload : α) (id : BitVec 32)
      (present : s.cells[s.popped]? = some ⟨owner, node, .committed payload id⟩) (cells : q.cells = s.cells)
      (consumed : q.consumed = s.consumed) (held : s.consumer.holds = true) :
      Chronicle s q none [.read (.data node)]
  | cleared (owner : ι) (node : Nat) (payload : α) (id : BitVec 32)
      (present : s.cells[s.popped]? = some ⟨owner, node, .committed payload id⟩)
      (cells : q.cells = s.cells.modify s.popped (Cell.progress Stage.retire))
      (consumed : q.consumed = s.consumed) (held : s.consumer.holds = true) :
      Chronicle s q none [.write (.data node), .write (.id node)]
  | advanced (payload : α) (cells : q.cells = s.cells) (consumed : q.consumed = s.consumed ++ [payload])
      (held : s.consumer.holds = true) (idle : q.consumer.holds = false) :
      Chronicle s q none [.fence .release, .exchange .head .relaxed]

theorem Inv.chronicle (inv : Inv s) {action : Action ι α} (taken : Mpsc.step s action = some q) :
    Chronicle s q action.thread (s.accesses action) := by
  cases step_moves taken with
  | @loadHead p =>
    have quiet : Chronicle s (Mpsc.loadHead s p) (some p) [.load .head .relaxed] := by
      rw [Mpsc.loadHead, if_pos inv.ring.valid]
      exact .quiet _ _ rfl rfl (by simp [Access.location, Location.node]) id
    simp only [State.accesses, inv.ring.valid, if_true]
    exact quiet
  | loadTail =>
    unfold Mpsc.loadTail
    split <;> exact .quiet _ _ rfl rfl (by simp [State.accesses, Access.location, Location.node]) id
  | @compareExchange p _ w spurious place =>
    have attempt : s.attempt p = some w := by simp [State.attempt, place]
    have accesses : s.accesses (.compareExchange p spurious) =
        if s.buffer.tail = w ∧ spurious = false then [.exchange .tail .seqCst] else [.load .tail .seqCst] := by
      simp only [State.accesses, attempt, Option.some.injEq, eq_comm]
    rw [accesses]
    unfold Mpsc.compareExchange
    split
    · rename_i exchanged
      rw [← exchanged.1, inv.ring.tail, inv.ring.pointer]
      exact .reserved p _ rfl rfl rfl
    · exact .quiet _ _ rfl rfl (by simp [Access.location, Location.node]) id
  | giveUp => exact .quiet _ _ rfl rfl (by simp [State.accesses]) id
  | @store p node payload place =>
    have present := inv.producers p
    rw [place] at present
    have accesses : s.accesses (.store p payload) = [.write (.data node)] := by rw [State.accesses, place]
    rw [accesses]
    exact .stored p node payload present rfl rfl rfl
  | @commit p node id place =>
    have stands := inv.producers p
    rw [place] at stands
    obtain ⟨payload, present⟩ := stands
    have accesses : s.accesses (.commit p id) = [.fence .release, .store (.id node) .release] := by
      rw [State.accesses, place]
    rw [accesses]
    exact .committed p node payload id present rfl rfl rfl
  | peekHead =>
    rw [if_pos inv.ring.valid]
    exact .quiet _ _ rfl rfl (by simp [State.accesses, inv.ring.valid, Access.location, Location.node])
      (by simp [Consumer.holds])
  | peekTail =>
    split <;> exact .quiet _ _ rfl rfl (by simp [State.accesses, Access.location, Location.node])
      (by simp [Consumer.holds])
  | peekNode =>
    rw [inv.ring.headPtr]
    exact .quiet _ _ rfl rfl (by simp [State.accesses, Access.location, Location.node]) (by simp [Consumer.holds])
  | @peekId node place =>
    have stands := inv.consumer
    rw [place] at stands
    obtain ⟨outstanding, pointed⟩ := stands
    have present : s.cells[s.popped]? = some s.cells[s.popped] := List.getElem?_eq_getElem outstanding
    have own := (inv.ring.nodes _ _ present).trans pointed.symm
    have accesses : s.accesses .peekId = [.load (.id node) .acquire] := by rw [State.accesses, place]
    rw [accesses]
    split
    · rename_i nonzero
      exact .looked node _ present own rfl rfl fun _ => inv.peekId place nonzero
    · exact .looked node _ present own rfl rfl fun held => by cases held
  | @read node place =>
    have stands := inv.consumer
    rw [place] at stands
    obtain ⟨owner, payload, id, present⟩ := stands
    have accesses : s.accesses .read = [.read (.data node)] := by rw [State.accesses, place]
    rw [accesses]
    exact .read owner node payload id present rfl rfl (by rw [place]; rfl)
  | @clear node payload place =>
    have stands := inv.consumer
    rw [place] at stands
    obtain ⟨owner, id, present⟩ := stands
    have accesses : s.accesses .clear = [.write (.data node), .write (.id node)] := by rw [State.accesses, place]
    rw [accesses]
    exact .cleared owner node payload id present rfl rfl (by rw [place]; rfl)
  | @advance _ payload place =>
    exact .advanced payload rfl rfl (by rw [place]; rfl) rfl

theorem step_order {action : Action ι α} (inv : Inv s) (taken : Mpsc.step s action = some q) :
    q.buffer.order = s.buffer.order := by
  cases step_moves taken with
  | loadHead =>
    rw [Mpsc.loadHead, if_pos inv.ring.valid]
    rfl
  | loadTail =>
    unfold Mpsc.loadTail
    split <;> rfl
  | compareExchange =>
    unfold Mpsc.compareExchange
    split
    · split <;> rfl
    · rfl
  | peekHead | peekTail | peekNode | peekId => split <;> rfl
  | giveUp | store | commit | read | clear | advance => rfl

/-- A reservation only moves forward. -/
structure Onward (cell next : Cell ι α) : Prop where
  node : next.node = cell.node
  owner : next.owner = cell.owner
  written : cell.stage ≠ .reserved → next.stage ≠ .reserved
  closed : ¬ cell.stage.Open → ¬ next.stage.Open

omit [DecidableEq ι] [Inhabited α] in
theorem Onward.refl (cell : Cell ι α) : Onward cell cell := ⟨rfl, rfl, id, id⟩

omit [DecidableEq ι] [Inhabited α] in
theorem onward_modify {cells : List (Cell ι α)} {i j : Nat} {cell other : Cell ι α} {change : Stage α → Stage α}
    (present : cells[i]? = some cell) (changed : cells[j]? = some other)
    (onward : Onward other (other.progress change)) :
    ∃ next, (cells.modify j (Cell.progress change))[i]? = some next ∧ Onward cell next := by
  by_cases same : i = j
  · subst same
    rw [present] at changed
    cases changed
    refine ⟨_, ?_, onward⟩
    rw [List.getElem?_modify_eq, present]
    rfl
  · refine ⟨cell, ?_, .refl cell⟩
    rw [List.getElem?_modify_ne _ _ (Ne.symm same)]
    exact present

variable {thread : Option ι} {accesses : List (Access Location)}

omit [DecidableEq ι] [Inhabited α] in
theorem Chronicle.onward (chronicle : Chronicle s q thread accesses) {i : Nat} {cell : Cell ι α}
    (present : s.cells[i]? = some cell) : ∃ next, q.cells[i]? = some next ∧ Onward cell next := by
  have kept (cells : q.cells = s.cells) : ∃ next, q.cells[i]? = some next ∧ Onward cell next :=
    ⟨cell, cells ▸ present, .refl cell⟩
  cases chronicle with
  | quiet _ _ cells => exact kept cells
  | reserved p node cells =>
    rw [cells]
    exact ⟨cell, getElem?_append_some present _, .refl cell⟩
  | stored p node payload there cells =>
    rw [cells]
    exact onward_modify present there ⟨rfl, rfl, fun other => absurd rfl other, fun closed => absurd trivial closed⟩
  | committed p node payload id there cells =>
    rw [cells]
    exact onward_modify present there ⟨rfl, rfl, fun _ other => (by cases other), fun closed => absurd trivial closed⟩
  | looked _ _ _ _ cells => exact kept cells
  | read _ _ _ _ _ cells => exact kept cells
  | cleared owner node payload id there cells =>
    rw [cells]
    exact onward_modify present there ⟨rfl, rfl, fun _ other => (by cases other), fun closed => closed⟩
  | advanced _ cells => exact kept cells

omit [DecidableEq ι] [Inhabited α] in
theorem Chronicle.popped (chronicle : Chronicle s q thread accesses) : s.popped ≤ q.popped := by
  cases chronicle with
  | advanced payload _ consumed => simp [State.popped, consumed]
  | quiet _ _ _ consumed => exact Nat.le_of_eq (congrArg List.length consumed.symm)
  | reserved _ _ _ consumed => exact Nat.le_of_eq (congrArg List.length consumed.symm)
  | stored _ _ _ _ _ consumed => exact Nat.le_of_eq (congrArg List.length consumed.symm)
  | committed _ _ _ _ _ _ consumed => exact Nat.le_of_eq (congrArg List.length consumed.symm)
  | looked _ _ _ _ _ consumed => exact Nat.le_of_eq (congrArg List.length consumed.symm)
  | read _ _ _ _ _ _ consumed => exact Nat.le_of_eq (congrArg List.length consumed.symm)
  | cleared _ _ _ _ _ _ consumed => exact Nat.le_of_eq (congrArg List.length consumed.symm)

end Steps

end Hvnetpp.Mpsc
