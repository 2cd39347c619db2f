import Hvnetpp.Loop.Callers

namespace Hvnetpp.Loop

open Machine

variable {ι : Type} {s t : State ι}

/-- A step of the loop thread that moves no functor between containers. -/
theorem Inv.turn (inv : Inv s) (backed : Backed t.queue)
    (length : t.queue.cells.length = s.queue.cells.length)
    (functors : ∀ i, t.functorAt i = s.functorAt i) (producers : t.queue.producers = s.queue.producers)
    (callers : t.callers = s.callers) (calls : t.calls = s.calls)
    (pending : t.pendingFunctors = s.pendingFunctors) (front : t.front = s.front)
    (settled : t.started ++ t.phase.rest = s.started ++ s.phase.rest) (phase : PhaseAt t t.phase)
    (history : t.started = t.finished ++ t.phase.current.toList) : Inv t ∧ Still s t := by
  have still : Still s t := ⟨settled, ringFunctors_congr front length functors, pending⟩
  refine ⟨⟨backed, ?_, phase, entries_of_functorAt inv length functors, history, ?_, ?_⟩, still⟩
  · intro q
    rw [callers]
    exact (inv.callers q).congr (by rw [producers]) (by rw [calls])
  · rw [still.pipeline]
    exact inv.nodup
  · intro f
    rw [still.pipeline, inv.passed]
    simp only [State.handed, State.inHand, calls, callers, producers]

theorem functorAt_of_cells (cells : t.queue.cells = s.queue.cells) (callers : t.callers = s.callers)
    (i : Nat) : t.functorAt i = s.functorAt i := by
  unfold State.functorAt
  rw [cells]
  cases s.queue.cells[i]? with
  | none => rfl
  | some cell =>
    apply cellFunctor_congr
    intro _
    rw [callers]

/-- The same, when only the loop thread's place and the history of executions change. -/
theorem Inv.rephase (inv : Inv s) {before after : Phase ι} (leaves : s.phase = before)
    (arrives : t.phase = after) (queue : t.queue = s.queue) (callers : t.callers = s.callers)
    (calls : t.calls = s.calls) (pending : t.pendingFunctors = s.pendingFunctors)
    (ahead : after.ahead = before.ahead) (settled : t.started ++ after.rest = s.started ++ before.rest)
    (phase : PhaseAt t after) (history : t.started = t.finished ++ after.current.toList) :
    Inv t ∧ Still s t := by
  have cells : t.queue.cells = s.queue.cells := congrArg _ queue
  subst leaves
  subst arrives
  apply inv.turn (by rw [queue]; exact inv.backed) (congrArg _ cells)
    (functorAt_of_cells cells callers) (congrArg _ queue) callers calls pending ?_ settled phase history
  rw [State.front, State.front, queue, ahead]

theorem Inv.at_phase (inv : Inv s) {place : Phase ι} (at_ : s.phase = place) : PhaseAt s place := by
  have stands := inv.phase
  rw [at_] at stands
  exact stands

theorem Inv.history_at (inv : Inv s) {place : Phase ι} (at_ : s.phase = place) :
    s.started = s.finished ++ place.current.toList := by
  have history := inv.history
  rw [at_] at history
  exact history

section Queue

variable [DecidableEq ι]

omit [DecidableEq ι] in
theorem Peek.looks (access : Peek) : (access.access : Mpsc.Action ι (Option (Functor ι))) = .peekHead ∨
    (access.access : Mpsc.Action ι (Option (Functor ι))) = .peekTail ∨
    (access.access : Mpsc.Action ι (Option (Functor ι))) = .peekNode ∨
    (access.access : Mpsc.Action ι (Option (Functor ι))) = .peekId := by
  cases access <;> simp [Peek.access]

theorem Inv.peek (inv : Inv s) (access : Peek) {q : Queue ι} (at_ : s.phase = .draining)
    (taken : Mpsc.step s.queue access.access = some q) (result : t = s.afterPeek q) :
    Inv t ∧ Still s t := by
  obtain ⟨valid, calling, away⟩ := inv.at_phase at_
  have history := inv.history_at at_
  have queue := inv.backed.inv valid
  have next := queue.step _ (by cases access <;> trivial) taken
  obtain ⟨place, rfl, away, _⟩ := Mpsc.peek_cases queue access.looks taken
  have either : t = { s with queue := { s.queue with consumer := place }, phase := .swapping } ∧
        place = .idle ∨ t = { s with queue := { s.queue with consumer := place } } := by
    subst result
    cases place <;> simp [State.afterPeek]
  rcases either with ⟨rfl, rfl⟩ | rfl
  · refine inv.turn (.inr next) rfl (functorAt_of_cells rfl rfl) rfl rfl rfl rfl ?_ ?_ ?_ ?_
    · simp only [State.front, at_, Phase.ahead]
      rfl
    · simp only [at_, Phase.rest]
    · exact ⟨rfl, calling⟩
    · exact history
  · refine inv.turn (.inr next) rfl (functorAt_of_cells rfl rfl) rfl rfl rfl rfl rfl rfl ?_ ?_
    · simp only [at_]
      exact ⟨valid, calling, away⟩
    · simp only [at_]
      exact history

theorem Inv.take (inv : Inv s) {q : Queue ι} (at_ : s.phase = .draining)
    (taken : Mpsc.step s.queue .read = some q) (result : t = s.afterRead q) :
    Inv t ∧ Effect s t .take := by
  obtain ⟨valid, calling, _⟩ := inv.at_phase at_
  have history := inv.history_at at_
  have queue := inv.backed.inv valid
  have next := queue.step .read trivial taken
  obtain ⟨node, peeked, rfl⟩ := Mpsc.step_read taken
  have stands := queue.consumer
  rw [peeked] at stands
  obtain ⟨owner, pointer, id, present⟩ := stands
  obtain ⟨f, entry⟩ := inv.entries _ _ present
  simp only [State.cellFunctor] at entry
  subst entry
  have payload : (s.queue.buffer.data node).data = some f := by
    rw [queue.ring.node_eq present (Nat.le_refl _)]
    rfl
  rw [payload] at next result
  simp only [State.afterRead] at result
  have inside := (List.getElem?_eq_some_iff.mp present).1
  have front : s.front = s.queue.popped := by simp only [State.front, at_, Phase.ahead, Nat.add_zero]
  have functors := functorAt_of_cells (s := s) (t := t) (by rw [result]) (by rw [result])
  have ring : s.ringFunctors = f :: t.ringFunctors := by
    have count : s.queue.cells.length - s.queue.popped = (s.queue.cells.length - (s.queue.popped + 1)) + 1 := by
      omega
    have first : s.functorAt s.queue.popped = some f := by
      simp only [State.functorAt, present, Option.bind_some, State.cellFunctor]
    have after : t.front = s.queue.popped + 1 := by
      subst result
      rfl
    have length : t.queue.cells.length = s.queue.cells.length := by
      subst result
      rfl
    rw [State.ringFunctors, State.ringFunctors, front, count, List.range'_succ, after, length,
      funext functors]
    exact List.filterMap_cons_some first
  have settled : t.started ++ t.phase.rest = s.started ++ s.phase.rest ++ [f] := by
    subst result
    simp only [at_, Phase.rest, List.append_nil]
  have pending : t.pendingFunctors = s.pendingFunctors := by
    subst result
    rfl
  have pipeline : t.pipeline = s.pipeline := by
    rw [State.pipeline, State.pipeline, settled, ring, pending]
    simp
  have shared : t.calls = s.calls ∧ t.callers = s.callers ∧ t.queue.producers = s.queue.producers := by
    subst result
    exact ⟨rfl, rfl, rfl⟩
  refine ⟨⟨?_, ?_, ?_, ?_, ?_, ?_, ?_⟩, .taken f settled ring pending⟩
  · subst result
    exact .inr next
  · intro p
    rw [shared.2.1]
    exact (inv.callers p).congr (by rw [shared.2.2]) (by rw [shared.1])
  · subst result
    exact ⟨valid, calling, node, rfl⟩
  · exact entries_of_functorAt inv (by rw [result]) functors
  · subst result
    simp only [Phase.current, Option.toList] at history ⊢
    rw [history]
    simp
  · rw [pipeline]
    exact inv.nodup
  · intro g
    rw [pipeline, inv.passed]
    simp only [State.handed, State.inHand, shared]

theorem Inv.clear (inv : Inv s) {q : Queue ι} (at_ : s.phase = .ran)
    (taken : Mpsc.step s.queue .clear = some q) (result : t = { s with queue := q }) :
    Inv t ∧ Still s t := by
  obtain ⟨valid, calling, _⟩ := inv.at_phase at_
  have history := inv.history_at at_
  have queue := inv.backed.inv valid
  have next := queue.step .clear trivial taken
  obtain ⟨node, pointer, reading, rfl⟩ := Mpsc.step_clear taken
  have stands := queue.consumer
  rw [reading] at stands
  obtain ⟨owner, id, present⟩ := stands
  have functors : ∀ i, t.functorAt i = s.functorAt i := by
    intro i
    subst result
    change ((s.queue.cells.modify s.queue.popped (Mpsc.Cell.progress Mpsc.Stage.retire))[i]?).bind _ = _
    unfold State.functorAt
    by_cases same : i = s.queue.popped
    · subst same
      rw [List.getElem?_modify_eq, present]
      rfl
    · rw [List.getElem?_modify_ne _ _ (Ne.symm same)]
      rfl
  have length : t.queue.cells.length = s.queue.cells.length := by
    subst result
    exact List.length_modify _ _ _
  subst result
  refine inv.turn (.inr next) length functors rfl rfl rfl rfl rfl rfl ?_ ?_
  · simp only [at_]
    exact ⟨valid, calling, node, pointer, .inr rfl⟩
  · simp only [at_]
    exact history

theorem Inv.advance (inv : Inv s) {q : Queue ι} (at_ : s.phase = .ran)
    (taken : Mpsc.step s.queue .advance = some q)
    (result : t = { s with queue := q, phase := .draining }) : Inv t ∧ Still s t := by
  obtain ⟨valid, calling, _⟩ := inv.at_phase at_
  have history := inv.history_at at_
  have queue := inv.backed.inv valid
  have next := queue.step .advance trivial taken
  obtain ⟨node, pointer, cleared, rfl⟩ := Mpsc.step_advance taken
  subst result
  refine inv.turn (.inr next) rfl (functorAt_of_cells rfl rfl) rfl rfl rfl rfl ?_ ?_ ?_ ?_
  · simp [State.front, at_, Phase.ahead, Mpsc.State.popped, Mpsc.advance]
  · simp only [at_, Phase.rest]
  · exact ⟨valid, calling, by simp [Mpsc.advance]⟩
  · exact history

end Queue

theorem Inv.swap (inv : Inv s) (at_ : s.phase = .swapping)
    (result : t = { s with phase := .serving s.pendingFunctors, pendingFunctors := [] }) :
    Inv t ∧ Effect s t .swap := by
  obtain ⟨idle, calling⟩ := inv.at_phase at_
  have history := inv.history_at at_
  have ring : t.ringFunctors = s.ringFunctors := by
    subst result
    apply ringFunctors_congr
    · simp only [State.front, at_, Phase.ahead]
    · rfl
    · exact functorAt_of_cells rfl rfl
  have settled : t.started ++ t.phase.rest = s.started ++ s.phase.rest ++ s.pendingFunctors := by
    subst result
    simp only [at_, Phase.rest, List.append_nil]
  have pending : t.pendingFunctors = [] := by
    subst result
    rfl
  have reordered : t.pipeline.Perm s.pipeline := by
    rw [State.pipeline, State.pipeline, settled, ring, pending, List.append_nil, List.append_assoc]
    rw [List.append_assoc _ s.ringFunctors]
    exact List.perm_append_comm.append_left _
  refine ⟨⟨?_, ?_, ?_, ?_, ?_, ?_, ?_⟩, .swapped settled ring pending⟩
  · subst result
    exact inv.backed
  · intro p
    subst result
    exact (inv.callers p).congr rfl rfl
  · subst result
    exact ⟨idle, calling⟩
  · subst result
    exact inv.entries
  · subst result
    exact history
  · exact reordered.nodup_iff.mpr inv.nodup
  · intro f
    rw [reordered.mem_iff, inv.passed]
    subst result
    rfl

end Hvnetpp.Loop
