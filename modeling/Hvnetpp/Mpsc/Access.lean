import Hvnetpp.Mpsc.Safety

namespace Hvnetpp.Mpsc

open Machine

variable {ι α : Type} [DecidableEq ι] [Inhabited α] {q r : State ι α} {p : ι}

theorem step_loadTail (taken : step q (.loadTail p) = some r) :
    ∃ h, q.producers p = .headLoaded h ∧ r = loadTail q p h := by
  cases step_moves taken with
  | loadTail place => exact ⟨_, place, rfl⟩

theorem step_compareExchange {spurious : Bool} (taken : step q (.compareExchange p spurious) = some r) :
    ∃ h w, q.producers p = .tailLoaded h w ∧ r = compareExchange q p w spurious := by
  cases step_moves taken with
  | compareExchange place => exact ⟨_, _, place, rfl⟩

theorem step_giveUp (taken : step q (.giveUp p) = some r) :
    q.producers p = .full ∧ r = q.setProducer p .idle := by
  cases step_moves taken with
  | giveUp place => exact ⟨place, rfl⟩

theorem step_store {payload : α} (taken : step q (.store p payload) = some r) :
    ∃ node, q.producers p = .reserved node ∧ r = store q p node payload := by
  cases step_moves taken with
  | store place => exact ⟨_, place, rfl⟩

theorem step_commit {id : BitVec 32} (taken : step q (.commit p id) = some r) :
    ∃ node, q.producers p = .written node ∧ id ≠ 0 ∧ r = commit q p node id := by
  cases step_moves taken with
  | commit place nonzero => exact ⟨_, place, nonzero, rfl⟩

theorem step_read (taken : step q .read = some r) :
    ∃ node, q.consumer = .peeked node ∧
      r = { q with consumer := .reading node (q.buffer.data node).data } := by
  cases step_moves taken with
  | read place => exact ⟨_, place, rfl⟩

theorem step_clear (taken : step q .clear = some r) :
    ∃ node payload, q.consumer = .reading node payload ∧ r = clear q node payload := by
  cases step_moves taken with
  | clear place => exact ⟨_, _, place, rfl⟩

theorem step_advance (taken : step q .advance = some r) :
    ∃ node payload, q.consumer = .cleared node payload ∧ r = advance q payload := by
  cases step_moves taken with
  | advance place => exact ⟨_, _, place, rfl⟩

/-- An access of `reserve` that reserves nothing: only the place of `p` moves. -/
structure Quiet (q r : State ι α) (p : ι) : Prop where
  buffer : r.buffer = q.buffer
  cells : r.cells = q.cells
  consumed : r.consumed = q.consumed
  consumer : r.consumer = q.consumer
  ticket : r.ticket = q.ticket
  others : ∀ other, other ≠ p → r.producers other = q.producers other
  before : ∀ node, q.producers p ≠ .reserved node ∧ q.producers p ≠ .written node
  after : ∀ node, r.producers p ≠ .reserved node ∧ r.producers p ≠ .written node

omit [Inhabited α] in
theorem Quiet.setProducer {place : Producer}
    (before : ∀ node, q.producers p ≠ .reserved node ∧ q.producers p ≠ .written node)
    (after : ∀ node, place ≠ .reserved node ∧ place ≠ .written node) :
    Quiet q (q.setProducer p place) p where
  buffer := rfl
  cells := rfl
  consumed := rfl
  consumer := rfl
  ticket := rfl
  others := fun _ different => Function.update_of_ne different _ _
  before := before
  after := by simpa [State.setProducer] using after

def Action.reserves (p : ι) : Action ι α → Prop
  | .loadHead q | .loadTail q | .compareExchange q _ => q = p
  | _ => False

/-- An access of `reserve` moves the producer alone, or is the exchange that appends its reservation. -/
theorem reserve_cases (inv : Inv q) {action : Action ι α} (own : action.reserves p)
    (taken : step q action = some r) :
    Quiet q r p ∨ ∃ h node, action = .compareExchange p false ∧
      q.producers p = .tailLoaded h q.buffer.tail ∧ r = reserve q p q.buffer.tail node := by
  cases step_moves taken <;> simp only [Action.reserves] at own <;> subst own
  case loadHead owner place =>
    left
    rw [Mpsc.loadHead, if_pos inv.ring.valid]
    have quiet : Quiet q (q.setProducer owner (.headLoaded q.buffer.head)) owner :=
      Quiet.setProducer (by simp [place]) (by simp)
    exact ⟨rfl, rfl, rfl, rfl, rfl, quiet.others, quiet.before, quiet.after⟩
  case loadTail owner h place =>
    left
    unfold Mpsc.loadTail
    split <;> exact Quiet.setProducer (by simp [place]) (by simp)
  case compareExchange owner h w spurious place =>
    unfold Mpsc.compareExchange
    split
    · rename_i exchanged
      obtain ⟨rfl, rfl⟩ := exchanged
      right
      have pointer : q.buffer.getPointer q.buffer.tail = some (slotOf q.buffer.order q.cells.length) := by
        rw [inv.ring.tail]
        exact inv.ring.pointer _
      rw [pointer]
      exact ⟨h, _, rfl, place, rfl⟩
    · left
      exact Quiet.setProducer (by simp [place]) (by simp)

/-- An access of `peek` changes the consumer alone. When it returns `nullptr`, nothing is outstanding or
    the head reservation is not committed. -/
theorem peek_cases (inv : Inv q) {action : Action ι α}
    (looks : action = .peekHead ∨ action = .peekTail ∨ action = .peekNode ∨ action = .peekId)
    (taken : step q action = some r) :
    ∃ place, r = { q with consumer := place } ∧
      (∀ node payload, place ≠ .reading node payload ∧ place ≠ .cleared node payload) ∧
      (place = .idle → q.popped = q.cells.length ∨
        ∃ cell, q.cells[q.popped]? = some cell ∧ cell.stage.Open) := by
  cases step_moves taken <;> simp only [reduceCtorEq, or_self] at looks
  case peekHead =>
    rw [if_pos inv.ring.valid]
    exact ⟨_, rfl, by simp, by simp⟩
  case peekTail h place =>
    have stands := inv.consumer
    rw [place] at stands
    split
    · rename_i equal
      refine ⟨_, rfl, by simp, fun _ => .inl (inv.ring.empty_iff.mp ?_)⟩
      rw [← equal]
      exact stands.symm
    · exact ⟨_, rfl, by simp, by simp⟩
  case peekNode =>
    rw [inv.ring.headPtr]
    exact ⟨_, rfl, by simp, by simp⟩
  case peekId node place =>
    split
    · exact ⟨_, rfl, by simp, by simp⟩
    · rename_i zero
      refine ⟨_, rfl, by simp, fun _ => .inr ?_⟩
      have stands := inv.consumer
      rw [place] at stands
      obtain ⟨outstanding, pointed⟩ := stands
      refine ⟨q.cells[q.popped], List.getElem?_eq_getElem outstanding, ?_⟩
      have present : q.cells[q.popped]? = some q.cells[q.popped] := List.getElem?_eq_getElem outstanding
      have same := (inv.ring.nodes _ _ present).trans pointed.symm
      have held := inv.ring.node_eq present (Nat.le_refl _)
      rw [same] at held
      have owned := inv.owned _ _ present
      cases stage : q.cells[q.popped].stage with
      | reserved => trivial
      | written payload => trivial
      | committed payload id =>
        rw [held, stage] at zero
        unfold Owned at owned
        rw [stage] at owned
        exact absurd owned zero
      | retired payload =>
        obtain ⟨_, other, stands⟩ := inv.future _ _ payload (Nat.le_refl _) present stage
        rw [place] at stands
        cases stands

end Hvnetpp.Mpsc
