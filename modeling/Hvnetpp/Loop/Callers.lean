import Hvnetpp.Loop.Pipeline

namespace Hvnetpp.Loop

open Machine

variable {ι : Type}

theorem CallerAt.congr {s t : State ι} {thread : ι} {place : Caller ι} (at_ : CallerAt s thread place)
    (producers : t.queue.producers thread = s.queue.producers thread)
    (calls : t.calls thread = s.calls thread) : CallerAt t thread place := by
  cases place <;> simp only [CallerAt, producers, calls] at at_ ⊢ <;> exact at_

theorem PhaseAt.congr {s t : State ι} {place : Phase ι} (at_ : PhaseAt s place)
    (consumer : t.queue.consumer = s.queue.consumer)
    (valid : t.queue.buffer.valid = s.queue.buffer.valid)
    (calling : t.callingPendingFunctors = s.callingPendingFunctors) : PhaseAt t place := by
  cases place <;> simp only [PhaseAt, consumer, valid, calling] at at_ ⊢ <;> exact at_

theorem Inv.holding {s : State ι} (inv : Inv s) {t : ι} {f : Functor ι} (held : s.callers t = .holding f) :
    f.caller = t ∧ f.seq + 1 = s.calls t ∧ ∀ node, s.queue.producers t ≠ .written node := by
  have at_ := inv.callers t
  rw [held] at at_
  exact at_

/-- The functor in a caller's hand is newer than everything the caller has handed over. -/
theorem Inv.newest {s : State ι} (inv : Inv s) {t : ι} {f : Functor ι} (held : s.callers t = .holding f)
    (free : ∀ node, s.queue.producers t ≠ .reserved node) {g : Functor ι} (member : g ∈ s.pipeline)
    (same : g.caller = t) : g.seq < f.seq := by
  obtain ⟨own, last, _⟩ := inv.holding held
  obtain ⟨called, gone⟩ := (inv.passed g).mp member
  have different : g ≠ f := by
    rintro rfl
    apply gone
    refine ⟨?_, ?_⟩
    · rw [same]
      exact held
    · intro node
      rw [same]
      exact free node
  rw [same] at called
  have apart : g.seq ≠ f.seq := by
    intro equal
    apply different
    cases g
    cases f
    simp only at same own equal
    rw [same, own, equal]
  omega

theorem entries_of_functorAt {s t : State ι} (inv : Inv s)
    (length : t.queue.cells.length = s.queue.cells.length)
    (same : ∀ i, t.functorAt i = s.functorAt i) (i : Nat) (cell : Mpsc.Cell ι (Option (Functor ι)))
    (present : t.queue.cells[i]? = some cell) : ∃ f, t.cellFunctor cell = some f := by
  have inside : i < s.queue.cells.length := by
    rw [← length]
    exact (List.getElem?_eq_some_iff.mp present).1
  have found : s.queue.cells[i]? = some s.queue.cells[i] := List.getElem?_eq_getElem inside
  obtain ⟨f, entry⟩ := inv.entries i _ found
  have equal := same i
  simp only [State.functorAt, present, found, Option.bind_some, entry] at equal
  exact ⟨f, equal⟩

theorem Inv.front_le {s : State ι} (inv : Inv s) : s.front ≤ s.queue.cells.length := by
  rcases inv.backed with initial | queue
  · have idle : s.phase.ahead = 0 := by
      have at_ := inv.phase
      cases place : s.phase <;> simp only [place, PhaseAt, Phase.ahead] at at_ ⊢
      all_goals
        rw [initial] at at_
        exact absurd at_.1 Bool.noConfusion
    rw [State.front, idle, initial]
    exact Nat.le_refl 0
  · have started := queue.ring.started
    have at_ := inv.phase
    have stands := queue.consumer
    unfold State.front
    cases place : s.phase <;> simp only [place, PhaseAt, Phase.ahead] at at_ ⊢ <;> try omega
    · obtain ⟨_, _, node, reading⟩ := at_
      rw [reading] at stands
      obtain ⟨owner, id, present⟩ := stands
      exact (List.getElem?_eq_some_iff.mp present).1
    · obtain ⟨_, _, node, payload, reading | cleared⟩ := at_
      · rw [reading] at stands
        obtain ⟨owner, id, present⟩ := stands
        exact (List.getElem?_eq_some_iff.mp present).1
      · rw [cleared] at stands
        obtain ⟨owner, present⟩ := stands
        exact (List.getElem?_eq_some_iff.mp present).1

/-- A step of `thread` that takes or fills no reservation: only its own places move. -/
structure Moved (s t : State ι) (thread : ι) : Prop where
  backed : Backed t.queue
  cells : t.queue.cells = s.queue.cells
  consumed : t.queue.consumed = s.queue.consumed
  consumer : t.queue.consumer = s.queue.consumer
  valid : t.queue.buffer.valid = s.queue.buffer.valid
  producers : ∀ other, other ≠ thread → t.queue.producers other = s.queue.producers other
  callers : ∀ other, other ≠ thread → t.callers other = s.callers other
  calls : ∀ other, other ≠ thread → t.calls other = s.calls other
  phase : t.phase = s.phase
  calling : t.callingPendingFunctors = s.callingPendingFunctors
  started : t.started = s.started
  finished : t.finished = s.finished
  free : ∀ node, s.queue.producers thread ≠ .reserved node

theorem Moved.functorAt {s t : State ι} {thread : ι} (moved : Moved s t thread) (inv : Inv s) (i : Nat) :
    t.functorAt i = s.functorAt i := by
  unfold State.functorAt
  rw [moved.cells]
  cases present : s.queue.cells[i]? with
  | none => rfl
  | some cell =>
    simp only [Option.bind_some]
    apply cellFunctor_congr
    intro stage
    have owner := (inv.reserved_owner present stage).1
    have other : cell.owner ≠ thread := by
      intro same
      rw [same] at owner
      exact moved.free _ owner
    rw [moved.callers _ other]

theorem Moved.ring {s t : State ι} {thread : ι} (moved : Moved s t thread) (inv : Inv s) :
    t.ringFunctors = s.ringFunctors := by
  apply ringFunctors_congr
  · simp only [State.front, Mpsc.State.popped, moved.consumed, moved.phase]
  · rw [moved.cells]
  · exact moved.functorAt inv

theorem Moved.still {s t : State ι} {thread : ι} (moved : Moved s t thread) (inv : Inv s)
    (pending : t.pendingFunctors = s.pendingFunctors) : Still s t where
  settled := by rw [moved.started, moved.phase]
  ring := moved.ring inv
  pending := pending

theorem Moved.handed {s t : State ι} {thread : ι} (moved : Moved s t thread) {f : Functor ι}
    (other : f.caller ≠ thread) : t.handed f ↔ s.handed f := by
  simp only [State.handed, State.inHand, moved.calls _ other, moved.callers _ other,
    moved.producers _ other]

/-- What remains to show after such a step is what it did to the pipeline. -/
theorem Inv.moved {s t : State ι} {thread : ι} (inv : Inv s) (moved : Moved s t thread)
    (arrived : CallerAt t thread (t.callers thread)) (nodup : t.pipeline.Nodup)
    (passed : ∀ f, f ∈ t.pipeline ↔ t.handed f) : Inv t where
  backed := moved.backed
  callers := by
    intro q
    by_cases same : q = thread
    · subst same
      exact arrived
    · rw [moved.callers q same]
      exact (inv.callers q).congr (moved.producers q same) (moved.calls q same)
  phase := by
    rw [moved.phase]
    exact inv.phase.congr moved.consumer moved.valid moved.calling
  entries := entries_of_functorAt inv (congrArg List.length moved.cells) (moved.functorAt inv)
  history := by
    rw [moved.started, moved.finished, moved.phase]
    exact inv.history
  nodup := nodup
  passed := passed

theorem Inv.moved_still {s t : State ι} {thread : ι} (inv : Inv s) (moved : Moved s t thread)
    (arrived : CallerAt t thread (t.callers thread)) (pending : t.pendingFunctors = s.pendingFunctors)
    (handed : ∀ f, f.caller = thread → (t.handed f ↔ s.handed f)) : Inv t := by
  have pipeline := (moved.still inv pending).pipeline
  apply inv.moved moved arrived
  · rw [pipeline]
    exact inv.nodup
  · intro f
    rw [pipeline, inv.passed]
    by_cases same : f.caller = thread
    · exact (handed f same).symm
    · exact (moved.handed same).symm

/-- A functor in hand is handed over: it joins the pipeline, wherever it is put. -/
theorem Inv.join {s t : State ι} {thread : ι} {f : Functor ι} (inv : Inv s)
    (held : s.callers thread = .holding f) (free : ∀ node, s.queue.producers thread ≠ .reserved node)
    (joined : t.pipeline.Perm (f :: s.pipeline))
    (own : ∀ g, g.caller = thread → (t.handed g ↔ g.seq < s.calls thread))
    (others : ∀ g, g.caller ≠ thread → (t.handed g ↔ s.handed g)) :
    t.pipeline.Nodup ∧ ∀ g, g ∈ t.pipeline ↔ t.handed g := by
  obtain ⟨caller, last, _⟩ := inv.holding held
  have hand : s.inHand f := by
    unfold State.inHand
    rw [caller]
    exact ⟨held, free⟩
  constructor
  · rw [joined.nodup_iff, List.nodup_cons]
    exact ⟨fun member => ((inv.passed f).mp member).2 hand, inv.nodup⟩
  · intro g
    rw [joined.mem_iff, List.mem_cons, inv.passed]
    by_cases same : g.caller = thread
    · rw [own g same]
      constructor
      · rintro (rfl | before)
        · omega
        · have := before.1
          rw [same] at this
          exact this
      · intro called
        by_cases equal : g = f
        · exact .inl equal
        · right
          refine ⟨by rw [same]; exact called, ?_⟩
          rintro ⟨holds, _⟩
          rw [same, held] at holds
          cases holds
          exact equal rfl
    · rw [others g same]
      constructor
      · rintro (rfl | before)
        · exact absurd caller same
        · exact before
      · exact .inr

theorem Inv.outside_idle {s : State ι} (inv : Inv s) {t : ι} (outside : s.callers t = .outside) :
    s.queue.producers t = .idle := by
  have at_ := inv.callers t
  rw [outside] at at_
  exact at_

theorem Inv.quiet {s : State ι} {thread : ι} (inv : Inv s) {f : Functor ι} {q : Queue ι}
    (held : s.callers thread = .holding f) (queue : Mpsc.Inv q) (quiet : Mpsc.Quiet s.queue q thread) :
    Inv { s with queue := q } ∧ Still s { s with queue := q } := by
  have moved : Moved s { s with queue := q } thread :=
    ⟨.inr queue, quiet.cells, quiet.consumed, quiet.consumer, congrArg _ quiet.buffer, quiet.others,
      fun _ _ => rfl, fun _ _ => rfl, rfl, rfl, rfl, rfl, fun node => (quiet.before node).1⟩
  refine ⟨inv.moved_still moved ?_ rfl ?_, moved.still inv rfl⟩
  · obtain ⟨own, last, _⟩ := inv.holding held
    simp only [held]
    exact ⟨own, last, fun node => (quiet.after node).2⟩
  · intro g same
    have before : ∀ node, s.queue.producers g.caller ≠ .reserved node := by
      rw [same]
      exact fun node => (quiet.before node).1
    have after : ∀ node, q.producers g.caller ≠ .reserved node := by
      rw [same]
      exact fun node => (quiet.after node).1
    simp [State.handed, State.inHand, before, after]

section Steps

variable [DecidableEq ι] {s t : State ι} {thread : ι}

theorem Inv.call (inv : Inv s) (outside : s.callers thread = .outside)
    (result : t = { s.setCaller thread (.holding ⟨thread, s.calls thread⟩) with
      calls := Function.update s.calls thread (s.calls thread + 1) }) : Inv t ∧ Still s t := by
  subst result
  have idle := inv.outside_idle outside
  have moved : Moved s { s.setCaller thread (.holding ⟨thread, s.calls thread⟩) with
      calls := Function.update s.calls thread (s.calls thread + 1) } thread :=
    ⟨inv.backed, rfl, rfl, rfl, rfl, fun _ _ => rfl, fun _ other => Function.update_of_ne other _ _,
      fun _ other => Function.update_of_ne other _ _, rfl, rfl, rfl, rfl, by simp [idle]⟩
  refine ⟨inv.moved_still moved ?_ rfl ?_, moved.still inv rfl⟩
  · simp [State.setCaller, CallerAt, idle]
  · rintro ⟨caller, seq⟩ same
    simp only at same
    subst same
    simp only [State.handed, State.inHand, State.setCaller, Function.update_self, outside, idle,
      reduceCtorEq, not_false_eq_true, and_true, Caller.holding.injEq, Functor.mk.injEq, true_and, ne_eq,
      implies_true]
    omega

theorem ringFunctors_reserve {f : Functor ι} (held : s.callers thread = .holding f) (w : BitVec 32)
    (node : Nat) (front : s.front ≤ s.queue.cells.length) :
    State.ringFunctors { s with queue := Mpsc.reserve s.queue thread w node } =
      s.ringFunctors ++ [f] := by
  have length : (Mpsc.reserve s.queue thread w node).cells.length - s.front =
      (s.queue.cells.length - s.front) + 1 := by
    simp only [Mpsc.reserve, List.length_append, List.length_singleton]
    omega
  have old : ∀ i ∈ List.range' s.front (s.queue.cells.length - s.front),
      State.functorAt { s with queue := Mpsc.reserve s.queue thread w node } i = s.functorAt i := by
    intro i member
    have inside : i < s.queue.cells.length := by
      rw [List.mem_range'_1] at member
      omega
    simp only [State.functorAt, Mpsc.reserve, List.getElem?_append_left inside]
    rfl
  have new : State.functorAt { s with queue := Mpsc.reserve s.queue thread w node }
      s.queue.cells.length = some f := by
    simp [State.functorAt, Mpsc.reserve, State.cellFunctor, held, Caller.held]
  have last : s.front + 1 * (s.queue.cells.length - s.front) = s.queue.cells.length := by omega
  change (List.range' s.front ((Mpsc.reserve s.queue thread w node).cells.length - s.front)).filterMap _ = _
  rw [length, List.range'_concat, List.filterMap_append, State.ringFunctors, List.filterMap_congr old, last]
  simp [new]

theorem Inv.reserve (inv : Inv s) {f : Functor ι} {w : BitVec 32} {node : Nat}
    (held : s.callers thread = .holding f) (free : ∀ node, s.queue.producers thread ≠ .reserved node)
    (queue : Mpsc.Inv (Mpsc.reserve s.queue thread w node)) :
    Inv { s with queue := Mpsc.reserve s.queue thread w node } := by
  have ring := ringFunctors_reserve held w node inv.front_le
  obtain ⟨own, last, _⟩ := inv.holding held
  have joined : (State.pipeline { s with queue := Mpsc.reserve s.queue thread w node }).Perm
      (f :: s.pipeline) := by
    have inserted : s.started ++ s.phase.rest ++ (s.ringFunctors ++ [f]) ++ s.pendingFunctors =
        (s.started ++ s.phase.rest ++ s.ringFunctors) ++ f :: s.pendingFunctors := by simp
    simp only [State.pipeline, ring]
    rw [inserted]
    exact List.perm_middle
  have pipeline := inv.join held free joined
    (by
      intro g same
      simp only [State.handed, State.inHand, same, Mpsc.reserve, Mpsc.State.setProducer,
        Function.update_self]
      simp)
    (by
      intro g other
      simp only [State.handed, State.inHand, Mpsc.reserve, Mpsc.State.setProducer,
        Function.update_of_ne other])
  refine ⟨.inr queue, ?_, ?_, ?_, inv.history, pipeline.1, pipeline.2⟩
  · intro q
    by_cases same : q = thread
    · subst same
      simp only [held]
      refine ⟨own, last, ?_⟩
      simp [Mpsc.reserve, Mpsc.State.setProducer]
    · refine (inv.callers q).congr ?_ rfl
      simp only [Mpsc.reserve, Mpsc.State.setProducer, Function.update_of_ne same]
  · exact inv.phase.congr rfl rfl rfl
  · intro i cell present
    by_cases inside : i < s.queue.cells.length
    · simp only [Mpsc.reserve, List.getElem?_append_left inside] at present
      exact inv.entries i cell present
    · simp only [Mpsc.reserve, List.getElem?_append_right (Nat.le_of_not_lt inside)] at present
      have new := List.mem_of_getElem? present
      simp only [List.mem_singleton] at new
      subst new
      exact ⟨f, by simp [State.cellFunctor, held, Caller.held]⟩

theorem functorAt_progress (inv : Inv s) {f : Functor ι} {i : Nat} {place : Caller ι}
    {change : Mpsc.Stage (Option (Functor ι)) → Mpsc.Stage (Option (Functor ι))}
    (cells : t.queue.cells = s.queue.cells.modify (s.queue.ticket thread) (Mpsc.Cell.progress change))
    (callers : t.callers = Function.update s.callers thread place)
    (before : s.functorAt (s.queue.ticket thread) = some f)
    (after : t.functorAt (s.queue.ticket thread) = some f) : t.functorAt i = s.functorAt i := by
  by_cases same : i = s.queue.ticket thread
  · rw [same, before, after]
  · unfold State.functorAt
    rw [cells, List.getElem?_modify_ne _ _ (Ne.symm same)]
    cases present : s.queue.cells[i]? with
    | none => rfl
    | some cell =>
      simp only [Option.bind_some]
      apply cellFunctor_congr
      intro stage
      have other : cell.owner ≠ thread := by
        intro owner
        have ticket := (inv.reserved_owner present stage).2
        rw [owner] at ticket
        exact same ticket.symm
      rw [callers, Function.update_of_ne other]

/-- The steps that fill a reservation: the pointer is stored, or the node committed. -/
theorem Inv.fill (inv : Inv s) (f : Functor ι) {place : Caller ι}
    {change : Mpsc.Stage (Option (Functor ι)) → Mpsc.Stage (Option (Functor ι))} {q : Queue ι}
    (result : t = { s.setCaller thread place with queue := q }) (queue : Mpsc.Inv q)
    (cells : q.cells = s.queue.cells.modify (s.queue.ticket thread) (Mpsc.Cell.progress change))
    (consumed : q.consumed = s.queue.consumed) (consumer : q.consumer = s.queue.consumer)
    (valid : q.buffer.valid = s.queue.buffer.valid)
    (producers : ∀ other, other ≠ thread → q.producers other = s.queue.producers other)
    (before : s.functorAt (s.queue.ticket thread) = some f)
    (after : t.functorAt (s.queue.ticket thread) = some f) (arrived : CallerAt t thread place)
    (handed : ∀ g, g.caller = thread → (t.handed g ↔ s.handed g)) : Inv t ∧ Still s t := by
  have ring : ∀ i, t.functorAt i = s.functorAt i := by
    intro i
    subst result
    exact functorAt_progress inv cells rfl before after
  have length : t.queue.cells.length = s.queue.cells.length := by
    subst result
    simp only [cells, List.length_modify]
  have still : Still s t := by
    refine ⟨by subst result; rfl, ringFunctors_congr ?_ length ring, by subst result; rfl⟩
    subst result
    simp only [State.front, Mpsc.State.popped, consumed, State.setCaller]
  have pipeline := still.pipeline
  refine ⟨⟨?_, ?_, ?_, ?_, ?_, ?_, ?_⟩, still⟩
  · subst result
    exact .inr queue
  · intro p
    by_cases same : p = thread
    · subst same
      have stands : t.callers p = place := by
        subst result
        simp [State.setCaller]
      rw [stands]
      exact arrived
    · subst result
      simp only [State.setCaller, Function.update_of_ne same]
      exact (inv.callers p).congr (producers p same) rfl
  · subst result
    exact inv.phase.congr consumer valid rfl
  · exact entries_of_functorAt inv length ring
  · subst result
    exact inv.history
  · rw [pipeline]
    exact inv.nodup
  · intro g
    rw [pipeline, inv.passed]
    by_cases same : g.caller = thread
    · exact (handed g same).symm
    · subst result
      simp only [State.handed, State.inHand, State.setCaller, Function.update_of_ne same,
        producers _ same]

theorem Inv.store (inv : Inv s) {f : Functor ι} {q : Queue ι} (held : s.callers thread = .holding f)
    (queue : Mpsc.Inv s.queue) (taken : Mpsc.step s.queue (.store thread (some f)) = some q)
    (result : t = { s.setCaller thread (.released f) with queue := q }) : Inv t ∧ Still s t := by
  have next := queue.step (.store thread (some f)) trivial taken
  obtain ⟨node, reserved, rfl⟩ := Mpsc.step_store taken
  have present : s.queue.cells[s.queue.ticket thread]? = some ⟨thread, node, .reserved⟩ := by
    have at_ := queue.producers thread
    rw [reserved] at at_
    exact at_
  obtain ⟨own, last, _⟩ := inv.holding held
  apply inv.fill f result next rfl rfl rfl rfl
  · intro other different
    exact Function.update_of_ne different _ _
  · simp [State.functorAt, present, State.cellFunctor, held, Caller.held]
  · subst result
    simp [State.functorAt, Mpsc.store, Mpsc.State.setCell, Mpsc.State.setNode, Mpsc.State.setProducer,
      present, Mpsc.Cell.progress, State.cellFunctor, Mpsc.Stage.write]
  · subst result
    refine ⟨own, last, node, ?_⟩
    simp [Mpsc.store, Mpsc.State.setProducer]
  · intro g same
    subst result
    simp [State.handed, State.inHand, State.setCaller, same, reserved]

theorem Inv.commit (inv : Inv s) {f : Functor ι} {q : Queue ι} (held : s.callers thread = .released f)
    (queue : Mpsc.Inv s.queue) (taken : Mpsc.step s.queue (.commit thread 1) = some q)
    (result : t = { s.setCaller thread (.waking f) with queue := q }) : Inv t ∧ Still s t := by
  have next := queue.step (.commit thread 1) trivial taken
  obtain ⟨node, written, _, rfl⟩ := Mpsc.step_commit taken
  have at_ := queue.producers thread
  rw [written] at at_
  obtain ⟨pointer, present⟩ := at_
  obtain ⟨g, entry⟩ := inv.entries _ _ present
  simp only [State.cellFunctor] at entry
  subst entry
  have caller := inv.callers thread
  rw [held] at caller
  obtain ⟨own, last, _⟩ := caller
  apply inv.fill g result next rfl rfl rfl rfl
  · intro other different
    exact Function.update_of_ne different _ _
  · simp only [State.functorAt, present, State.cellFunctor, Option.bind_some]
  · subst result
    simp [State.functorAt, Mpsc.commit, Mpsc.State.setCell, Mpsc.State.setNode, Mpsc.State.setProducer,
      present, Mpsc.Cell.progress, State.cellFunctor, Mpsc.Stage.commit]
  · subst result
    refine ⟨own, last, ?_⟩
    simp [Mpsc.commit, Mpsc.State.setProducer]
  · intro h same
    subst result
    simp [State.handed, State.inHand, State.setCaller, same, held]

theorem Inv.push (inv : Inv s) {f : Functor ι} {q : Queue ι} (held : s.callers thread = .holding f)
    (taken : (if s.queue.buffer.valid then Mpsc.step s.queue (.giveUp thread) else some s.queue) = some q)
    (result : t = { s.setCaller thread (.waking f) with
      queue := q, pendingFunctors := s.pendingFunctors ++ [f] }) :
    Inv t ∧ Effect s t (.push thread) := by
  obtain ⟨own, last, _⟩ := inv.holding held
  -- refused by a full ring, or never asked
  have refused : Backed q ∧ q.cells = s.queue.cells ∧ q.consumed = s.queue.consumed ∧
      q.consumer = s.queue.consumer ∧ q.buffer.valid = s.queue.buffer.valid ∧
      (∀ other, other ≠ thread → q.producers other = s.queue.producers other) ∧
      q.producers thread = .idle ∧ ∀ node, s.queue.producers thread ≠ .reserved node := by
    split at taken
    · rename_i valid
      have next := (inv.backed.inv valid).step (.giveUp thread) trivial taken
      obtain ⟨full, rfl⟩ := Mpsc.step_giveUp taken
      exact ⟨.inr next, rfl, rfl, rfl, rfl, fun _ different => Function.update_of_ne different _ _,
        Function.update_self _ _ _, by simp [full]⟩
    · rename_i invalid
      cases taken
      rcases inv.backed with initial | queue
      · have idle : s.queue.producers thread = .idle := by rw [initial]; rfl
        exact ⟨inv.backed, rfl, rfl, rfl, rfl, fun _ _ => rfl, idle, by simp [idle]⟩
      · exact absurd queue.ring.valid invalid
  obtain ⟨backed, cells, consumed, consumer, valid, producers, idle, free⟩ := refused
  have moved : Moved s t thread := by
    subst result
    exact ⟨backed, cells, consumed, consumer, valid, producers,
      fun _ different => Function.update_of_ne different _ _, fun _ _ => rfl, rfl, rfl, rfl, rfl, free⟩
  have pending : t.pendingFunctors = s.pendingFunctors ++ [f] := by
    subst result
    rfl
  have ring := moved.ring inv
  have settled : t.started ++ t.phase.rest = s.started ++ s.phase.rest := by
    rw [moved.started, moved.phase]
  have joined : t.pipeline.Perm (f :: s.pipeline) := by
    rw [State.pipeline, settled, ring, pending, ← List.append_assoc]
    exact List.perm_append_singleton f _
  have pipeline := inv.join held free joined
    (by
      intro g same
      subst result
      simp [State.handed, State.inHand, State.setCaller, same])
    (fun g other => moved.handed other)
  refine ⟨inv.moved moved ?_ pipeline.1 pipeline.2, .pushed f held free settled ring pending⟩
  subst result
  simp only [State.setCaller, Function.update_self]
  exact ⟨own, last, idle⟩

theorem Inv.pass (inv : Inv s) (place : Caller ι) (idle : s.queue.producers thread = .idle)
    (empty : ∀ f, s.callers thread ≠ .holding f)
    (queue : t.queue = s.queue) (callers : t.callers = Function.update s.callers thread place)
    (arrives : place = .outside ∨ place = .quitting) (calls : t.calls = s.calls)
    (phase : t.phase = s.phase) (calling : t.callingPendingFunctors = s.callingPendingFunctors)
    (started : t.started = s.started) (finished : t.finished = s.finished)
    (pending : t.pendingFunctors = s.pendingFunctors) : Inv t ∧ Still s t := by
  have stands : t.callers thread = place := by rw [callers, Function.update_self]
  have moved : Moved s t thread := by
    refine ⟨?_, ?_, ?_, ?_, ?_, ?_, ?_, ?_, phase, calling, started, finished, by simp [idle]⟩
    · rw [queue]; exact inv.backed
    · rw [queue]
    · rw [queue]
    · rw [queue]
    · rw [queue]
    · intro other _; rw [queue]
    · intro other different; rw [callers, Function.update_of_ne different]
    · intro other _; rw [calls]
  have after : ∀ f, t.callers thread ≠ .holding f := by
    intro f
    rw [stands]
    rcases arrives with rfl | rfl <;> simp
  refine ⟨inv.moved_still moved ?_ pending ?_, moved.still inv pending⟩
  · rw [stands]
    rcases arrives with rfl | rfl <;> simp only [CallerAt, queue, idle]
  · intro f same
    simp only [State.handed, State.inHand, same, calls, empty f, after f, false_and]

end Steps

end Hvnetpp.Loop
