import Hvnetpp.Mpsc.Invariant

namespace Hvnetpp.Mpsc

open Machine

variable {ι α : Type} [DecidableEq ι] [Inhabited α] {s t : State ι α}

/-- What an access does, by the place at which it is made. -/
inductive Moves (s : State ι α) : Action ι α → State ι α → Prop
  | loadHead {p : ι} : s.producers p = .idle → Moves s (.loadHead p) (loadHead s p)
  | loadTail {p : ι} {h : BitVec 32} : s.producers p = .headLoaded h → Moves s (.loadTail p) (loadTail s p h)
  | compareExchange {p : ι} {h w : BitVec 32} {spurious : Bool} : s.producers p = .tailLoaded h w →
    Moves s (.compareExchange p spurious) (compareExchange s p w spurious)
  | giveUp {p : ι} : s.producers p = .full → Moves s (.giveUp p) (s.setProducer p .idle)
  | store {p : ι} {node : Nat} {payload : α} : s.producers p = .reserved node →
    Moves s (.store p payload) (store s p node payload)
  | commit {p : ι} {node : Nat} {id : BitVec 32} : s.producers p = .written node → id ≠ 0 →
    Moves s (.commit p id) (commit s p node id)
  | peekHead : s.consumer = .idle →
    Moves s .peekHead (if s.buffer.valid then { s with consumer := .headLoaded s.buffer.head } else s)
  | peekTail {h : BitVec 32} : s.consumer = .headLoaded h →
    Moves s .peekTail (if h = s.buffer.tail then { s with consumer := .idle } else { s with consumer := .nonempty })
  | peekNode : s.consumer = .nonempty →
    Moves s .peekNode (match s.buffer.headPtr with
      | some node => { s with consumer := .pointing node }
      | none => { s with consumer := .idle })
  | peekId {node : Nat} : s.consumer = .pointing node →
    Moves s .peekId (if (s.buffer.data node).id ≠ 0 then { s with consumer := .peeked node }
      else { s with consumer := .idle })
  | read {node : Nat} : s.consumer = .peeked node →
    Moves s .read { s with consumer := .reading node (s.buffer.data node).data }
  | clear {node : Nat} {payload : α} : s.consumer = .reading node payload → Moves s .clear (clear s node payload)
  | advance {node : Nat} {payload : α} : s.consumer = .cleared node payload → Moves s .advance (advance s payload)

theorem step_moves {action : Action ι α} (taken : step s action = some t) : Moves s action t := by
  cases action
  case loadHead p | loadTail p | compareExchange p _ | giveUp p | store p _ =>
    cases place : s.producers p <;> simp only [step, producerStep, place, reduceCtorEq] at taken
    cases taken
    constructor
    exact place
  case commit p id =>
    cases place : s.producers p <;> simp only [step, producerStep, place, reduceCtorEq] at taken
    obtain ⟨nonzero, taken⟩ := Option.ite_none_right_eq_some.mp taken
    cases taken
    exact .commit place nonzero
  case peekHead | peekTail | peekNode | peekId | read | clear | advance =>
    cases place : s.consumer <;> simp only [step, consumerStep, place, reduceCtorEq] at taken
    cases taken
    constructor
    exact place

theorem Inv.compareExchange (inv : Inv s) (p : ι) {r w : BitVec 32} (spurious : Bool)
    (at_ : s.producers p = .tailLoaded r w)
    (bounded : s.attempt p = some s.buffer.tail →
      nodeSize * (s.cells.length - s.seen p) < 2 ^ 32 - s.buffer.size) :
    Inv (compareExchange s p w spurious) := by
  unfold Mpsc.compareExchange
  split
  · rename_i exchanged
    obtain ⟨rfl, _⟩ := exchanged
    have attempted : s.attempt p = some s.buffer.tail := by simp [State.attempt, at_]
    have pointer : s.buffer.getPointer s.buffer.tail = some (slotOf s.buffer.order s.cells.length) := by
      rw [inv.ring.tail]
      exact inv.ring.pointer _
    rw [pointer]
    exact inv.reserve p at_ (bounded attempted)
  · refine inv.setProducer p .idle ?_ trivial
    intro node
    rw [at_]
    constructor <;> exact Producer.noConfusion

omit [DecidableEq ι] in
/-- `peek` hands out the head node only after its reservation was committed: an id read there is the id of
    the current lap, because retired and free nodes are zero. -/
theorem Inv.peekId (inv : Inv s) {node : Nat} (at_ : s.consumer = .pointing node)
    (nonzero : (s.buffer.data node).id ≠ 0) :
    ∃ owner payload id, s.cells[s.popped]? = some ⟨owner, node, .committed payload id⟩ := by
  have stands := inv.consumer
  rw [at_] at stands
  obtain ⟨outstanding, pointed⟩ := stands
  obtain ⟨cell, present⟩ : ∃ cell, s.cells[s.popped]? = some cell :=
    ⟨_, List.getElem?_eq_getElem outstanding⟩
  have same : cell.node = node := (inv.ring.nodes _ cell present).trans pointed.symm
  rw [← same, inv.ring.node_eq present (Nat.le_refl _)] at nonzero
  obtain ⟨owner, own, stage⟩ := cell
  cases stage with
  | committed payload id => exact ⟨owner, payload, id, by rw [present, ← same]⟩
  | reserved => exact absurd rfl nonzero
  | written payload => exact absurd rfl nonzero
  | retired payload => exact absurd rfl nonzero

theorem Inv.step (inv : Inv s) (action : Action ι α) (bounded : TailBounded s action)
    (taken : step s action = some t) : Inv t := by
  have stands := inv.consumer
  cases step_moves taken with
  | loadHead place => exact inv.loadHead _ place
  | loadTail place => exact inv.loadTail _ place
  | compareExchange place => exact inv.compareExchange _ _ place bounded
  | giveUp place =>
    refine inv.setProducer _ .idle ?_ trivial
    intro node
    rw [place]
    constructor <;> exact Producer.noConfusion
  | store place => exact inv.store _ _ place
  | commit place nonzero => exact inv.commit _ place nonzero
  | peekHead place =>
    rw [if_pos inv.ring.valid]
    exact inv.look _ rfl (by simp [place])
  | peekTail place =>
    rw [place] at stands
    split
    · exact inv.look _ trivial (by simp [place])
    · rename_i different
      refine inv.look _ ?_ (by simp [place])
      have apart : s.popped ≠ s.cells.length := by
        intro equal
        exact different (stands.trans (inv.ring.empty_iff.mpr equal))
      have := inv.ring.started
      simp only [ConsumerAt]
      omega
  | peekNode place =>
    rw [place] at stands
    rw [inv.ring.headPtr]
    exact inv.look _ ⟨stands, rfl⟩ (by simp [place])
  | peekId place =>
    split
    · rename_i nonzero
      exact inv.look _ (inv.peekId place nonzero) (by simp [place])
    · exact inv.look _ trivial (by simp [place])
  | @read node place =>
    rw [place] at stands
    obtain ⟨owner, payload, id, present⟩ := stands
    have held : (s.buffer.data node).data = payload := by
      rw [inv.ring.node_eq present (Nat.le_refl _)]
      rfl
    rw [held]
    exact inv.look _ ⟨owner, id, present⟩ (by simp [place])
  | clear place => exact inv.clear place
  | advance place => exact inv.advance place

theorem reachable_inv {order : Nat} (lower : 6 ≤ order) (upper : order ≤ 31)
    (run : Reaches step TailBounded (State.initial ι α order true) s) : Inv s :=
  run.keeps (Inv.initial lower upper) fun _ action _ inv bounded taken => inv.step action bounded taken

def Consumer.node : Consumer α → Option Nat
  | .peeked node | .reading node _ => some node
  | _ => none

omit [DecidableEq ι] in
theorem Inv.peeked (inv : Inv s) {node : Nat} (returned : s.consumer.node = some node) :
    ∃ owner payload id, s.cells[s.popped]? = some ⟨owner, node, .committed payload id⟩ := by
  have stands := inv.consumer
  cases place : s.consumer <;>
    simp only [place, Consumer.node, Option.some.injEq, reduceCtorEq] at returned
  · rw [place] at stands
    subst returned
    exact stands
  · rw [place] at stands
    subst returned
    obtain ⟨owner, id, present⟩ := stands
    exact ⟨owner, _, id, present⟩

omit [DecidableEq ι] in
theorem Inv.consumed_eq (inv : Inv s) :
    s.consumed.map some = (s.cells.take s.popped).map fun cell => cell.stage.payload := by
  apply List.ext_getElem?
  intro i
  rw [List.getElem?_map, List.getElem?_map]
  by_cases inside : i < s.consumed.length
  · have consumed := List.getElem?_eq_getElem inside
    obtain ⟨owner, node, present⟩ := inv.past i _ consumed
    have taken : (s.cells.take s.popped)[i]? = s.cells[i]? := List.getElem?_take_of_lt inside
    rw [taken, present, consumed]
    rfl
  · have none : s.consumed[i]? = none := List.getElem?_eq_none (by omega)
    have short : (s.cells.take s.popped)[i]? = Option.none := by
      apply List.getElem?_eq_none
      simp only [List.length_take, State.popped]
      omega
    rw [none, short]
    rfl

/-- Outstanding reservations have nodes of their own and fit the buffer, `peek` returns only a node
    committed in the current lap, and the consumed payloads are those committed by the first reservations,
    in reservation order. -/
theorem queue_safety {order : Nat} (lower : 6 ≤ order) (upper : order ≤ 31)
    (run : Reaches step TailBounded (State.initial ι α order true) s) :
    ((s.cells.drop s.popped).map Cell.node).Nodup ∧
    (s.cells.drop s.popped).length ≤ s.buffer.size / nodeSize ∧
    (∀ node, s.consumer.node = some node → ∃ owner payload id,
      s.cells[s.popped]? = some ⟨owner, node, .committed payload id⟩ ∧
      s.buffer.data node = ⟨payload, id⟩) ∧
    s.consumed.map some = (s.cells.take s.popped).map fun cell => cell.stage.payload := by
  have inv := reachable_inv lower upper run
  refine ⟨inv.ring.outstanding_nodup, ?_, ?_, inv.consumed_eq⟩
  · have within := inv.ring.within
    rw [inv.ring.size_eq, Nat.mul_div_cancel_left _ (by decide), List.length_drop]
    omega
  · intro node returned
    obtain ⟨owner, payload, id, present⟩ := inv.peeked returned
    exact ⟨owner, payload, id, present, inv.ring.node_eq present (Nat.le_refl _)⟩

/-- Two producers on a one-node buffer: the second is refused until the first payload is consumed. -/
def alternating : List (Action (Fin 2) Nat) :=
  [.loadHead 0, .loadHead 1, .loadTail 0, .compareExchange 0 true, .loadHead 0, .loadTail 0,
    .compareExchange 0 false, .loadTail 1, .giveUp 1, .store 0 7, .commit 0 1, .peekHead, .peekTail,
    .peekNode, .peekId, .read, .clear, .advance, .loadHead 1, .loadTail 1, .compareExchange 1 false,
    .store 1 8, .commit 1 5, .peekHead, .peekTail, .peekNode, .peekId]

theorem queue_safety_alternating : ∃ s : State (Fin 2) Nat, s.consumed = [7] ∧
    s.consumer.node = some 0 ∧ ((s.cells.drop s.popped).map Cell.node).Nodup ∧
    (s.cells.drop s.popped).length ≤ s.buffer.size / nodeSize ∧
    (∀ node, s.consumer.node = some node → ∃ owner payload id,
      s.cells[s.popped]? = some ⟨owner, node, .committed payload id⟩ ∧
      s.buffer.data node = ⟨payload, id⟩) ∧
    s.consumed.map some = (s.cells.take s.popped).map fun cell => cell.stage.payload := by
  have ran : (exec (guarded step TailBounded) (State.initial (Fin 2) Nat 6 true) alternating).map
      (fun s => (s.consumed, s.consumer.node)) = some ([7], some 0) := by decide
  obtain ⟨s, reached, seen⟩ := Option.map_eq_some_iff.mp ran
  obtain ⟨consumed, returned⟩ := Prod.mk.inj seen
  exact ⟨s, consumed, returned, queue_safety (by decide) (by decide) (exec_guarded_reaches reached)⟩

end Hvnetpp.Mpsc
