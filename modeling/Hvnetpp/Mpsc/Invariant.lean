import Hvnetpp.Mpsc.Ring

namespace Hvnetpp.Mpsc

open Machine

variable {ι α : Type}

def State.popped (s : State ι α) : Nat := s.consumed.length

def Stage.Open : Stage α → Prop
  | .reserved | .written _ => True
  | .committed _ _ | .retired _ => False

def ProducerAt (s : State ι α) (p : ι) : Producer → Prop
  | .idle | .full => True
  | .headLoaded r => Stale s.buffer s.popped s.cells.length (s.seen p) r
  | .tailLoaded r w =>
    Stale s.buffer s.popped s.cells.length (s.seen p) r ∧ s.buffer.isFull r w = false
  | .reserved node => s.cells[s.ticket p]? = some ⟨p, node, .reserved⟩
  | .written node => ∃ payload, s.cells[s.ticket p]? = some ⟨p, node, .written payload⟩

def Owned (s : State ι α) (i : Nat) (cell : Cell ι α) : Prop :=
  match cell.stage with
  | .reserved => s.producers cell.owner = .reserved cell.node ∧ s.ticket cell.owner = i
  | .written _ => s.producers cell.owner = .written cell.node ∧ s.ticket cell.owner = i
  | .committed _ id => id ≠ 0
  | .retired _ => True

def ConsumerAt (s : State ι α) : Consumer α → Prop
  | .idle => True
  | .headLoaded h => h = s.buffer.head
  | .nonempty => s.popped < s.cells.length
  | .pointing node => s.popped < s.cells.length ∧ node = slotOf s.buffer.order s.popped
  | .peeked node => ∃ owner payload id, s.cells[s.popped]? = some ⟨owner, node, .committed payload id⟩
  | .reading node payload => ∃ owner id, s.cells[s.popped]? = some ⟨owner, node, .committed payload id⟩
  | .cleared node payload => ∃ owner, s.cells[s.popped]? = some ⟨owner, node, .retired payload⟩

theorem progress_cases {cells : List (Cell ι α)} {change : Stage α → Stage α} {i j : Nat}
    {cell : Cell ι α} (present : (cells.modify i (Cell.progress change))[j]? = some cell) :
    (j ≠ i ∧ cells[j]? = some cell) ∨
      (j = i ∧ ∃ before, cells[i]? = some before ∧ cell = before.progress change) := by
  by_cases same : j = i
  · subst same
    rw [List.getElem?_modify_eq] at present
    obtain ⟨before, found, changed⟩ := Option.map_eq_some_iff.mp present
    exact .inr ⟨rfl, before, found, changed.symm⟩
  · rw [List.getElem?_modify_ne _ _ (Ne.symm same)] at present
    exact .inl ⟨same, present⟩

theorem ProducerAt.frame {s t : State ι α} {q : ι} {place : Producer} (at_ : ProducerAt s q place)
    (order : t.buffer.order = s.buffer.order) (popped : s.popped ≤ t.popped)
    (count : s.cells.length ≤ t.cells.length) (seen : t.seen q = s.seen q)
    (ticket : t.ticket q = s.ticket q)
    (own : ∀ node stage, stage.Open → s.cells[s.ticket q]? = some ⟨q, node, stage⟩ →
      t.cells[s.ticket q]? = some ⟨q, node, stage⟩) : ProducerAt t q place := by
  have older : ∀ {r}, Stale s.buffer s.popped s.cells.length (s.seen q) r →
      Stale t.buffer t.popped t.cells.length (t.seen q) r := by
    rintro r ⟨h, rfl, before, near, counted⟩
    refine ⟨h, rfl, Nat.le_trans before popped, ?_, ?_⟩
    · simpa only [seen, CircularBuffer.capacity, order] using near
    · rw [seen]
      exact Nat.le_trans counted count
  cases place with
  | idle => trivial
  | full => trivial
  | headLoaded r => exact older at_
  | tailLoaded r w =>
    refine ⟨older at_.1, ?_⟩
    simpa only [CircularBuffer.isFull, CircularBuffer.size, order] using at_.2
  | reserved node =>
    simp only [ProducerAt, ticket] at at_ ⊢
    exact own _ _ trivial at_
  | written node =>
    obtain ⟨payload, present⟩ := at_
    refine ⟨payload, ?_⟩
    rw [ticket]
    exact own _ _ trivial present

section Invariant

variable [Inhabited α]

/-- Every reachable queue: the buffer holds the outstanding lap, producers and open reservations point at
    each other, and what has been consumed is what was retired, in order. -/
structure Inv (s : State ι α) : Prop where
  ring : Ring s.buffer s.cells s.popped
  producers : ∀ p, ProducerAt s p (s.producers p)
  owned : ∀ (i : Nat) cell, s.cells[i]? = some cell → Owned s i cell
  past : ∀ (i : Nat) payload, s.consumed[i]? = some payload →
    ∃ owner node, s.cells[i]? = some ⟨owner, node, .retired payload⟩
  future : ∀ (i : Nat) cell payload, s.popped ≤ i → s.cells[i]? = some cell → cell.stage = .retired payload →
    i = s.popped ∧ ∃ node, s.consumer = .cleared node payload
  consumer : ConsumerAt s s.consumer

theorem Inv.initial {order : Nat} (lower : 6 ≤ order) (upper : order ≤ 31) :
    Inv (State.initial ι α order true) where
  ring := Ring.create lower upper
  producers := fun _ => trivial
  owned := by intro i cell present; simp [State.initial] at present
  past := by intro i payload present; simp [State.initial] at present
  future := by intro i cell payload _ present; simp [State.initial] at present
  consumer := trivial

theorem Inv.outstanding {s : State ι α} (inv : Inv s) {i : Nat} {cell : Cell ι α}
    (present : s.cells[i]? = some cell) (unretired : ∀ payload, cell.stage ≠ .retired payload) :
    s.popped ≤ i := by
  by_contra below
  have inside : i < s.consumed.length := by simpa [State.popped] using below
  obtain ⟨owner, node, found⟩ := inv.past i _ (List.getElem?_eq_getElem inside)
  rw [present] at found
  cases found
  exact unretired _ rfl

end Invariant

section Steps

variable [DecidableEq ι] [Inhabited α] {s : State ι α}

theorem Inv.move (inv : Inv s) (p : ι) (place : Producer) (count : Nat)
    (free : ∀ node, s.producers p ≠ .reserved node ∧ s.producers p ≠ .written node)
    (arrived : ProducerAt { s with seen := Function.update s.seen p count } p place) :
    Inv { s.setProducer p place with seen := Function.update s.seen p count } where
  ring := inv.ring
  producers := by
    intro q
    by_cases same : q = p
    · subst same
      simp only [State.setProducer, Function.update_self]
      cases place <;> exact arrived
    · simp only [State.setProducer, Function.update_of_ne same]
      exact (inv.producers q).frame rfl (Nat.le_refl _) (Nat.le_refl _)
        (Function.update_of_ne same _ _) rfl (fun _ _ _ present => present)
  owned := by
    intro i cell present
    have held := inv.owned i cell present
    by_cases same : cell.owner = p
    · unfold Owned at held ⊢
      rw [same] at held
      cases stage : cell.stage with
      | reserved => rw [stage] at held; exact absurd held.1 (free _).1
      | written payload => rw [stage] at held; exact absurd held.1 (free _).2
      | committed payload id => rw [stage] at held; exact held
      | retired payload => trivial
    · simpa only [Owned, State.setProducer, Function.update_of_ne same] using held
  past := inv.past
  future := inv.future
  consumer := by
    have held := inv.consumer
    cases place : s.consumer <;> simp only [place, State.setProducer] at held ⊢ <;> exact held

theorem Inv.setProducer (inv : Inv s) (p : ι) (place : Producer)
    (free : ∀ node, s.producers p ≠ .reserved node ∧ s.producers p ≠ .written node)
    (arrived : ProducerAt s p place) : Inv (s.setProducer p place) := by
  have moved := inv.move p place (s.seen p) free
  rw [Function.update_eq_self] at moved
  exact moved arrived

theorem Inv.loadHead (inv : Inv s) (p : ι) (at_ : s.producers p = .idle) : Inv (loadHead s p) := by
  have free : ∀ node, s.producers p ≠ .reserved node ∧ s.producers p ≠ .written node := by
    intro node
    rw [at_]
    constructor <;> exact Producer.noConfusion
  unfold Mpsc.loadHead
  rw [if_pos inv.ring.valid]
  apply inv.move p _ _ free
  refine ⟨s.popped, inv.ring.head, Nat.le_refl _, ?_, ?_⟩
  · simpa using inv.ring.within
  · simp

theorem Inv.loadTail (inv : Inv s) (p : ι) {r : BitVec 32} (at_ : s.producers p = .headLoaded r) :
    Inv (loadTail s p r) := by
  have free : ∀ node, s.producers p ≠ .reserved node ∧ s.producers p ≠ .written node := by
    intro node
    rw [at_]
    constructor <;> exact Producer.noConfusion
  have stale := inv.producers p
  rw [at_] at stale
  unfold Mpsc.loadTail
  split
  · exact inv.setProducer p .full free trivial
  · rename_i passed
    exact inv.setProducer p _ free ⟨stale, by simpa using passed⟩

theorem Inv.reserve (inv : Inv s) (p : ι) {r : BitVec 32}
    (at_ : s.producers p = .tailLoaded r s.buffer.tail)
    (bounded : nodeSize * (s.cells.length - s.seen p) < 2 ^ 32 - s.buffer.size) :
    Inv (reserve s p s.buffer.tail (slotOf s.buffer.order s.cells.length)) := by
  have passed := inv.producers p
  rw [at_] at passed
  have room := inv.ring.room passed.1 passed.2 bounded
  have grown := inv.ring.reserve room p
  have old : ∀ {i : Nat} {cell}, s.cells[i]? = some cell →
      (s.cells ++ [⟨p, slotOf s.buffer.order s.cells.length, .reserved⟩])[i]? = some cell := by
    intro i cell present
    rw [List.getElem?_append_left (List.getElem?_eq_some_iff.mp present).1]
    exact present
  refine ⟨grown, ?_, ?_, ?_, ?_, ?_⟩
  · intro q
    by_cases same : q = p
    · subst same
      simp only [Mpsc.reserve, State.setProducer, Function.update_self]
      simp [ProducerAt]
    · simp only [Mpsc.reserve, State.setProducer, Function.update_of_ne same]
      exact (inv.producers q).frame rfl (Nat.le_refl _) (by simp) rfl (Function.update_of_ne same _ _)
        (fun _ _ _ present => old present)
  · intro i cell present
    by_cases inside : i < s.cells.length
    · simp only [Mpsc.reserve, List.getElem?_append_left inside] at present
      have held := inv.owned i cell present
      unfold Owned at held ⊢
      by_cases same : cell.owner = p
      · -- the producer held no reservation, so its older cells are closed
        rw [same, at_] at held
        cases stage : cell.stage <;> simp only [stage] at held ⊢ <;> first | exact held | simp at held
      · simpa only [Mpsc.reserve, State.setProducer, Function.update_of_ne same] using held
    · have last : i = s.cells.length := by
        have := (List.getElem?_eq_some_iff.mp present).1
        simp only [Mpsc.reserve, List.length_append, List.length_singleton] at this
        omega
      subst last
      simp only [Mpsc.reserve, List.getElem?_concat_length, Option.some.injEq] at present
      subst cell
      simp [Owned, Mpsc.reserve, State.setProducer]
  · intro i payload present
    obtain ⟨owner, node, found⟩ := inv.past i payload present
    exact ⟨owner, node, old found⟩
  · intro i cell payload above present retired
    by_cases inside : i < s.cells.length
    · simp only [Mpsc.reserve, List.getElem?_append_left inside] at present
      exact inv.future i cell payload above present retired
    · simp only [Mpsc.reserve, List.getElem?_append_right (Nat.le_of_not_lt inside)] at present
      have := List.mem_of_getElem? present
      simp only [List.mem_singleton] at this
      subst cell
      cases retired
  · have held := inv.consumer
    simp only [Mpsc.reserve, State.setProducer]
    cases place : s.consumer <;> simp only [place, ConsumerAt] at held ⊢
    · exact held
    · exact Nat.lt_of_lt_of_le held (by simp)
    · exact ⟨Nat.lt_of_lt_of_le held.1 (by simp), held.2⟩
    · obtain ⟨owner, payload, id, present⟩ := held
      exact ⟨owner, payload, id, old present⟩
    · obtain ⟨owner, id, present⟩ := held
      exact ⟨owner, id, old present⟩
    · obtain ⟨owner, present⟩ := held
      exact ⟨owner, old present⟩

theorem Inv.progress (inv : Inv s) (p : ι) {node : Nat} {stage : Stage α}
    (at_ : s.cells[s.ticket p]? = some ⟨p, node, stage⟩) (opened : stage.Open)
    (change : Stage α → Stage α) (place : Producer)
    (arrived : ProducerAt ((s.setCell (s.ticket p) change).setProducer p place) p place)
    (owned : Owned ((s.setCell (s.ticket p) change).setProducer p place) (s.ticket p)
      ⟨p, node, change stage⟩)
    (unretired : ∀ payload, change stage ≠ .retired payload) :
    Inv (((s.setNode node (change stage).node).setCell (s.ticket p) change).setProducer p place) := by
  have fresh : ∀ payload, stage ≠ .retired payload := by
    intro payload same
    rw [same] at opened
    exact opened
  have outstanding := inv.outstanding at_ fresh
  have kept : ∀ {j : Nat} {cell : Cell ι α}, j ≠ s.ticket p → s.cells[j]? = some cell →
      (s.cells.modify (s.ticket p) (Cell.progress change))[j]? = some cell := by
    intro j cell other present
    rw [List.getElem?_modify_ne _ _ (Ne.symm other)]
    exact present
  refine ⟨inv.ring.progress at_ outstanding change, ?_, ?_, ?_, ?_, ?_⟩
  · intro q
    by_cases same : q = p
    · subst same
      simp only [State.setProducer, Function.update_self]
      cases place <;> exact arrived
    · simp only [State.setProducer, Function.update_of_ne same]
      refine (inv.producers q).frame rfl (Nat.le_refl _) ?_ rfl rfl ?_
      · simp [State.setCell, State.setNode]
      · intro node' stage' _ present
        refine kept ?_ present
        intro equal
        rw [equal, at_] at present
        cases present
        exact same rfl
  · intro i cell present
    rcases progress_cases present with ⟨other, present⟩ | ⟨rfl, before, found, rfl⟩
    · have held := inv.owned i cell present
      by_cases same : cell.owner = p
      · -- the only open reservation of `p` is the one that moves
        unfold Owned at held ⊢
        rw [same] at held
        cases closed : cell.stage with
        | reserved => rw [closed] at held; exact absurd held.2.symm other
        | written payload => rw [closed] at held; exact absurd held.2.symm other
        | committed payload id => rw [closed] at held; exact held
        | retired payload => trivial
      · simpa only [Owned, State.setProducer, State.setCell, State.setNode,
          Function.update_of_ne same] using held
    · change s.cells[s.ticket p]? = some before at found
      rw [at_] at found
      cases found
      exact owned
  · intro i payload present
    obtain ⟨owner, node', found⟩ := inv.past i payload present
    refine ⟨owner, node', kept ?_ found⟩
    intro equal
    rw [equal, at_] at found
    cases found
    exact fresh _ rfl
  · intro i cell payload above present retired
    rcases progress_cases present with ⟨_, present⟩ | ⟨rfl, before, found, rfl⟩
    · exact inv.future i cell payload above present retired
    · change s.cells[s.ticket p]? = some before at found
      rw [at_] at found
      cases found
      exact absurd retired (unretired payload)
  · have held := inv.consumer
    have apart : ∀ {cell : Cell ι α}, ¬ cell.stage.Open → s.cells[s.popped]? = some cell →
        (s.cells.modify (s.ticket p) (Cell.progress change))[s.popped]? = some cell := by
      intro cell closed present
      refine kept ?_ present
      intro equal
      rw [equal, at_] at present
      cases present
      exact closed opened
    simp only [State.setProducer, State.setCell, State.setNode]
    cases stands : s.consumer <;> simp only [stands, ConsumerAt] at held ⊢
    · exact held
    · simpa [State.popped] using held
    · simpa [State.popped] using held
    · obtain ⟨owner, payload, id, present⟩ := held
      exact ⟨owner, payload, id, apart not_false present⟩
    · obtain ⟨owner, id, present⟩ := held
      exact ⟨owner, id, apart not_false present⟩
    · obtain ⟨owner, present⟩ := held
      exact ⟨owner, apart not_false present⟩

theorem Inv.store (inv : Inv s) (p : ι) {node : Nat} (payload : α)
    (at_ : s.producers p = .reserved node) : Inv (store s p node payload) := by
  have present : s.cells[s.ticket p]? = some ⟨p, node, .reserved⟩ := by
    have stands := inv.producers p
    rw [at_] at stands
    exact stands
  have outstanding := inv.outstanding present (by intro payload same; cases same)
  have before := inv.ring.node_eq present outstanding
  have value : { s.buffer.data node with data := payload } =
      (Stage.write payload (Stage.reserved : Stage α)).node := by
    rw [before]
    rfl
  unfold Mpsc.store
  rw [value]
  refine inv.progress p present trivial _ _ ⟨payload, ?_⟩ ?_ (by intro payload same; cases same)
  · simp [State.setProducer, State.setCell, present, Cell.progress, Stage.write]
  · simp [Owned, State.setProducer, State.setCell, Stage.write]

theorem Inv.commit (inv : Inv s) (p : ι) {node : Nat} {id : BitVec 32}
    (at_ : s.producers p = .written node) (nonzero : id ≠ 0) : Inv (commit s p node id) := by
  have stands := inv.producers p
  rw [at_] at stands
  obtain ⟨payload, present⟩ := stands
  have outstanding := inv.outstanding present (by intro payload same; cases same)
  have before := inv.ring.node_eq present outstanding
  have value : { s.buffer.data node with id := id } = (Stage.commit id (.written payload)).node := by
    rw [before]
    rfl
  unfold Mpsc.commit
  rw [value]
  exact inv.progress p present trivial _ _ trivial nonzero (by intro payload same; cases same)

end Steps

section Consumer

variable [Inhabited α] {s : State ι α}

theorem Inv.look (inv : Inv s) (place : Consumer α) (arrived : ConsumerAt s place)
    (before : ∀ node payload, s.consumer ≠ .cleared node payload) :
    Inv { s with consumer := place } where
  ring := inv.ring
  producers := by
    intro q
    exact (inv.producers q).frame rfl (Nat.le_refl _) (Nat.le_refl _) rfl rfl
      (fun _ _ _ present => present)
  owned := inv.owned
  past := inv.past
  future := by
    intro i cell payload above present retired
    obtain ⟨_, node, stands⟩ := inv.future i cell payload above present retired
    exact absurd stands (before node payload)
  consumer := by cases place <;> exact arrived

theorem Inv.clear (inv : Inv s) {node : Nat} {payload : α} (at_ : s.consumer = .reading node payload) :
    Inv (clear s node payload) := by
  have stands := inv.consumer
  rw [at_] at stands
  obtain ⟨owner, id, present⟩ := stands
  have kept : ∀ {j : Nat} {cell : Cell ι α}, j ≠ s.popped → s.cells[j]? = some cell →
      (s.cells.modify s.popped (Cell.progress Stage.retire))[j]? = some cell := by
    intro j cell other found
    rw [List.getElem?_modify_ne _ _ (Ne.symm other)]
    exact found
  refine ⟨inv.ring.progress present (Nat.le_refl _) Stage.retire, ?_, ?_, ?_, ?_, ?_⟩
  · intro q
    refine (inv.producers q).frame rfl (Nat.le_refl _) ?_ rfl rfl ?_
    · simp [Mpsc.clear, State.setCell, State.setNode]
    · intro node' stage opened found
      refine kept ?_ found
      intro equal
      rw [equal, present] at found
      cases found
      exact opened
  · intro i cell found
    rcases progress_cases found with ⟨_, found⟩ | ⟨rfl, before, was, rfl⟩
    · exact inv.owned i cell found
    · change s.cells[s.popped]? = some before at was
      rw [present] at was
      cases was
      trivial
  · intro i payload' found
    obtain ⟨owner', node', entry⟩ := inv.past i payload' found
    refine ⟨owner', node', kept ?_ entry⟩
    intro equal
    rw [equal, present] at entry
    cases entry
  · intro i cell payload' above found retired
    rcases progress_cases found with ⟨_, found⟩ | ⟨rfl, before, was, rfl⟩
    · obtain ⟨_, node', stands⟩ := inv.future i cell payload' above found retired
      rw [at_] at stands
      cases stands
    · change s.cells[s.popped]? = some before at was
      rw [present] at was
      cases was
      cases retired
      exact ⟨rfl, node, rfl⟩
  · refine ⟨owner, ?_⟩
    change (s.cells.modify s.popped (Cell.progress Stage.retire))[s.popped]? = _
    rw [List.getElem?_modify_eq, present]
    rfl

theorem Inv.advance (inv : Inv s) {node : Nat} {payload : α} (at_ : s.consumer = .cleared node payload) :
    Inv (advance s payload) := by
  have stands := inv.consumer
  rw [at_] at stands
  obtain ⟨owner, present⟩ := stands
  have moved : (Mpsc.advance s payload).popped = s.popped + 1 := by
    simp [State.popped, Mpsc.advance]
  refine ⟨?_, ?_, inv.owned, ?_, ?_, trivial⟩
  · rw [moved]
    exact inv.ring.advance present rfl
  · intro q
    exact (inv.producers q).frame rfl (by omega) (Nat.le_refl _) rfl rfl (fun _ _ _ found => found)
  · intro i payload' found
    by_cases inside : i < s.consumed.length
    · simp only [Mpsc.advance, List.getElem?_append_left inside] at found
      exact inv.past i payload' found
    · have last : i = s.consumed.length := by
        have := (List.getElem?_eq_some_iff.mp found).1
        simp only [Mpsc.advance, List.length_append, List.length_singleton] at this
        omega
      subst last
      simp only [Mpsc.advance, List.getElem?_concat_length, Option.some.injEq] at found
      subst payload'
      exact ⟨owner, node, present⟩
  · intro i cell payload' above found retired
    rw [moved] at above
    -- only the head could be retired before it was popped
    have head := (inv.future i cell payload' (by omega) found retired).1
    omega

end Consumer

end Hvnetpp.Mpsc
