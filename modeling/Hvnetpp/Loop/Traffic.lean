import Hvnetpp.Loop.Steps

namespace Hvnetpp.Loop

open Machine

variable {ι : Type} [DecidableEq ι] {s t : State ι}

instance (s : State ι) (action : Action ι) : Decidable (Bounded s action) :=
  match action with
  | .exchange t spurious =>
    inferInstanceAs (Decidable (Mpsc.TailBounded s.queue (.compareExchange t spurious)))
  | .call _ | .loadHead _ | .loadTail _ | .store _ | .commit _ | .push _ | .wake _ | .quit _
  | .quitWake _ | .enter | .poll _ | .dispatch | .handled | .drain | .peek _ | .take | .done | .clear
  | .advance | .swap | .serve | .served | .leave => isTrue trivial

/-- A call of `queueInLoop` up to the exchange of `reserve`. -/
def attempting (thread : ι) : List (Action ι) := [.call thread, .loadHead thread, .loadTail thread]

/-- A whole call of `queueInLoop` that finds room in the ring and is not interrupted. -/
def publishing (thread : ι) : List (Action ι) :=
  attempting thread ++ [.exchange thread false, .store thread, .commit thread, .wake thread]

/-- What the call has done when it comes to the exchange. -/
def State.attempted (s : State ι) (thread : ι) : State ι :=
  { s with
    queue := { s.queue with
      producers := Function.update s.queue.producers thread (.tailLoaded s.queue.buffer.head s.queue.buffer.tail)
      seen := Function.update s.queue.seen thread s.queue.cells.length }
    callers := Function.update s.callers thread (.holding ⟨thread, s.calls thread⟩)
    calls := Function.update s.calls thread (s.calls thread + 1) }

def State.published (s : State ι) (thread : ι) (node : Nat) : State ι :=
  { s with
    queue := { s.queue with
      buffer := { s.queue.buffer with
        tail := s.queue.buffer.tail + BitVec.ofNat 32 Mpsc.nodeSize
        data := Function.update s.queue.buffer.data node ⟨some ⟨thread, s.calls thread⟩, 1⟩ }
      cells := s.queue.cells ++ [⟨thread, node, .committed (some ⟨thread, s.calls thread⟩) 1⟩]
      ticket := Function.update s.queue.ticket thread s.queue.cells.length
      seen := Function.update s.queue.seen thread s.queue.cells.length }
    calls := Function.update s.calls thread (s.calls thread + 1)
    wakeupFd := signal s.wakeupFd }

@[simp] theorem published_length (s : State ι) (thread : ι) (node : Nat) :
    (s.published thread node).queue.cells.length = s.queue.cells.length + 1 := by
  simp [State.published]

theorem published_last (s : State ι) (thread : ι) (node : Nat) :
    (s.published thread node).queue.cells[s.queue.cells.length]? =
      some ⟨thread, node, .committed (some ⟨thread, s.calls thread⟩) 1⟩ := by
  simp [State.published]

theorem modify_last {α : Type} (front : List α) (last : α) (change : α → α) :
    (front ++ [last]).modify front.length change = front ++ [change last] := by
  simp [List.modify_eq_take_drop]

theorem Inv.home (inv : Inv s) {thread : ι} (outside : s.callers thread = .outside) :
    Function.update s.callers thread .outside = s.callers ∧
      Function.update s.queue.producers thread .idle = s.queue.producers := by
  constructor
  · rw [← outside, Function.update_eq_self]
  · rw [← inv.outside_idle outside, Function.update_eq_self]

/-- The thread may call `queueInLoop`, and its call ends with a wakeup. -/
structure Calls (s : State ι) (thread : ι) : Prop where
  may : s.mayCall thread
  wakes : thread ≠ s.threadId ∨ s.callingPendingFunctors = true

omit [DecidableEq ι] in
theorem Calls.of_foreign {thread : ι} (foreign : thread ≠ s.threadId) (outside : s.callers thread = .outside) :
    Calls s thread :=
  ⟨⟨outside, fun own => absurd own foreign⟩, .inl foreign⟩

theorem attempts (inv : Inv s) (thread : ι) (valid : s.queue.buffer.valid = true) (may : s.mayCall thread)
    (room : s.queue.cells.length < s.queue.popped + s.queue.buffer.capacity) :
    exec (guarded step Bounded) s (attempting thread) = some (s.attempted thread) := by
  have idle := inv.outside_idle may.1
  have space : s.queue.buffer.isFull s.queue.buffer.head s.queue.buffer.tail = false := by
    rw [Bool.eq_false_iff, ne_eq, (inv.backed.inv valid).ring.isFull_iff]
    exact Nat.ne_of_lt room
  simp [attempting, guarded, Bounded, step, Action.ofCaller, callerStep, may, State.reserving, State.setCaller, valid,
    Mpsc.step, Mpsc.producerStep, idle, Mpsc.loadHead, Mpsc.loadTail, Mpsc.State.setProducer, space, State.attempted]

theorem attempted_bounded (inv : Inv s) (thread : ι) (valid : s.queue.buffer.valid = true) :
    Bounded (s.attempted thread) (.exchange thread false) := by
  have size := (inv.backed.inv valid).ring.size_le
  have seen : (s.attempted thread).queue.seen thread = s.queue.cells.length := Function.update_self ..
  intro _
  show Mpsc.nodeSize * (s.queue.cells.length - (s.attempted thread).queue.seen thread) < 2 ^ 32 - s.queue.buffer.size
  rw [seen, Nat.sub_self]
  omega

theorem publishes (inv : Inv s) (thread : ι) (valid : s.queue.buffer.valid = true) (calls : Calls s thread)
    (room : s.queue.cells.length < s.queue.popped + s.queue.buffer.capacity) :
    exec (guarded step Bounded) s (publishing thread) =
      some (s.published thread (Mpsc.slotOf s.queue.buffer.order s.queue.cells.length)) := by
  have queue := inv.backed.inv valid
  have wakes := calls.wakes
  obtain ⟨away, rest⟩ := inv.home calls.may.1
  have pointer : s.queue.buffer.getPointer s.queue.buffer.tail =
      some (Mpsc.slotOf s.queue.buffer.order s.queue.cells.length) := by
    rw [queue.ring.tail]
    exact queue.ring.pointer _
  have exchanged : guarded step Bounded (s.attempted thread) (.exchange thread false) =
      step (s.attempted thread) (.exchange thread false) := if_pos (attempted_bounded inv thread valid)
  rw [publishing, exec_append, attempts inv thread valid calls.may room, Option.bind_some, exec_cons,
    exchanged]
  simp [guarded, Bounded, step, Action.ofCaller, callerStep, wakes, State.attempted, State.reserving,
    State.setCaller, valid, Mpsc.step, Mpsc.producerStep, Mpsc.State.setProducer, Mpsc.compareExchange, pointer,
    Mpsc.reserve, Mpsc.store, Mpsc.commit, Mpsc.State.setNode, Mpsc.State.setCell, modify_last,
    Mpsc.Cell.progress, Mpsc.Stage.write, Mpsc.Stage.commit, State.published, State.wakeup, away, rest]

/-- Between two states `thread` has only added reservations to the ring. -/
structure Undisturbed (thread : ι) (s t : State ι) : Prop where
  threadId : t.threadId = s.threadId
  order : t.queue.buffer.order = s.queue.buffer.order
  valid : t.queue.buffer.valid = s.queue.buffer.valid
  producers : t.queue.producers = s.queue.producers
  consumer : t.queue.consumer = s.queue.consumer
  consumed : t.queue.consumed = s.queue.consumed
  cells : s.queue.cells <+: t.queue.cells
  callers : t.callers = s.callers
  pending : t.pendingFunctors = s.pendingFunctors
  calling : t.callingPendingFunctors = s.callingPendingFunctors
  quit : t.quit = s.quit
  phase : t.phase = s.phase
  calls : ∀ other, other ≠ thread → t.calls other = s.calls other
  started : t.started = s.started
  finished : t.finished = s.finished

omit [DecidableEq ι] in
theorem Undisturbed.refl (thread : ι) (s : State ι) : Undisturbed thread s s :=
  ⟨rfl, rfl, rfl, rfl, rfl, rfl, List.prefix_rfl, rfl, rfl, rfl, rfl, rfl, fun _ _ => rfl, rfl, rfl⟩

theorem Undisturbed.published {thread : ι} (undisturbed : Undisturbed thread s t) (node : Nat) :
    Undisturbed thread s (t.published thread node) :=
  { undisturbed with
    cells := undisturbed.cells.trans (List.prefix_append _ _)
    calls := by
      intro other different
      rw [← undisturbed.calls other different]
      exact Function.update_of_ne different _ _ }

theorem floods (inv : Inv s) (thread : ι) (valid : s.queue.buffer.valid = true)
    (foreign : thread ≠ s.threadId) (outside : s.callers thread = .outside) (count : Nat)
    (room : s.queue.cells.length + count ≤ s.queue.popped + s.queue.buffer.capacity) :
    ∃ t, Reaches step Bounded s t ∧ Undisturbed thread s t ∧
      t.queue.cells.length = s.queue.cells.length + count := by
  induction count with
  | zero => exact ⟨s, .refl s, .refl thread s, rfl⟩
  | succ count induction =>
    obtain ⟨t, run, undisturbed, length⟩ := induction (by omega)
    have next : Inv t := inv.reaches run
    have space : t.queue.cells.length < t.queue.popped + t.queue.buffer.capacity := by
      simp only [Mpsc.State.popped, Mpsc.CircularBuffer.capacity, undisturbed.consumed, undisturbed.order,
        length] at room ⊢
      omega
    have calls : Calls t thread :=
      .of_foreign (by rw [undisturbed.threadId]; exact foreign) (by rw [undisturbed.callers, outside])
    have call := publishes next thread (by rw [undisturbed.valid, valid]) calls space
    refine ⟨_, run.trans (exec_guarded_reaches call), undisturbed.published _, ?_⟩
    rw [published_length, length]
    omega

/-- A whole call that finds the ring full. -/
def overflowing (thread : ι) : List (Action ι) :=
  [.call thread, .loadHead thread, .loadTail thread, .push thread, .wake thread]

def State.overflowed (s : State ι) (thread : ι) : State ι :=
  { s with
    queue := { s.queue with seen := Function.update s.queue.seen thread s.queue.cells.length }
    pendingFunctors := s.pendingFunctors ++ [⟨thread, s.calls thread⟩]
    calls := Function.update s.calls thread (s.calls thread + 1)
    wakeupFd := signal s.wakeupFd }

theorem overflows (inv : Inv s) (thread : ι) (valid : s.queue.buffer.valid = true) (calls : Calls s thread)
    (full : s.queue.cells.length = s.queue.popped + s.queue.buffer.capacity) :
    exec (guarded step Bounded) s (overflowing thread) = some (s.overflowed thread) := by
  have queue := inv.backed.inv valid
  obtain ⟨may, wakes⟩ := calls
  have idle := inv.outside_idle may.1
  obtain ⟨away, rest⟩ := inv.home may.1
  have space : s.queue.buffer.isFull s.queue.buffer.head s.queue.buffer.tail = true :=
    queue.ring.isFull_iff.mpr full
  simp [overflowing, guarded, Bounded, step, Action.ofCaller, callerStep, may, wakes, State.reserving, State.setCaller, valid, Mpsc.step, Mpsc.producerStep, idle, Mpsc.loadHead,
    Mpsc.loadTail, Mpsc.State.setProducer, space, State.overflowed, State.wakeup, away, rest]

/-- The loop of `doPendingFunctors` from its top to the functor of the head node. -/
def fetching : List (Action ι) := [.peek .head, .peek .tail, .peek .node, .peek .id, .take]

def State.fetched (s : State ι) (f : Functor ι) (node : Nat) : State ι :=
  { s with
    queue := { s.queue with consumer := .reading node (some f) }
    phase := .running f
    started := s.started ++ [f] }

theorem fetches (inv : Inv s) (outside : s.callers s.threadId = .outside) (draining : s.phase = .draining)
    (idle : s.queue.consumer = .idle) {owner : ι} {node : Nat} {f : Functor ι} {id : BitVec 32}
    (present : s.queue.cells[s.queue.popped]? = some ⟨owner, node, .committed (some f) id⟩) :
    exec (guarded step Bounded) s fetching = some (s.fetched f node) := by
  obtain ⟨valid, _, _⟩ := inv.at_phase draining
  have queue := inv.backed.inv valid
  have committed : ¬ id = 0#32 := queue.owned _ _ present
  have entry := queue.ring.node_eq present (Nat.le_refl _)
  have pointer : s.queue.buffer.headPtr = some node := by
    rw [queue.ring.headPtr, ← queue.ring.nodes _ _ present]
  have nonempty : s.queue.buffer.head ≠ s.queue.buffer.tail := by
    have inside := (List.getElem?_eq_some_iff.mp present).1
    rw [ne_eq, queue.ring.empty_iff]
    exact Nat.ne_of_lt inside
  simp only [Mpsc.Stage.node] at entry
  simp [fetching, guarded, Bounded, step, Action.ofCaller, loopStep, draining, outside, valid, Peek.access,
    Mpsc.step, Mpsc.consumerStep, idle, State.afterPeek, nonempty, pointer, entry, committed,
    State.afterRead, State.fetched]

/-- The functor has run, and its node is consumed. -/
def consuming : List (Action ι) := [.done, .clear, .advance]

def State.consumed (s : State ι) (f : Functor ι) (node : Nat) : State ι :=
  { s with
    queue := { s.queue with
      buffer := { s.queue.buffer with
        head := s.queue.buffer.head + BitVec.ofNat 32 Mpsc.nodeSize
        data := Function.update s.queue.buffer.data node .zeroed }
      consumer := .idle
      consumed := s.queue.consumed ++ [some f]
      cells := s.queue.cells.modify s.queue.popped (Mpsc.Cell.progress .retire) }
    phase := .draining
    finished := s.finished ++ [f] }

theorem consumes (inv : Inv s) (outside : s.callers s.threadId = .outside) {f : Functor ι}
    (running : s.phase = .running f) :
    ∃ node, exec (guarded step Bounded) s consuming = some (s.consumed f node) := by
  obtain ⟨_, _, node, reading⟩ := inv.at_phase running
  exists node
  simp [consuming, guarded, Bounded, step, Action.ofCaller, loopStep, running, outside, Mpsc.step,
    Mpsc.consumerStep, reading, Mpsc.clear, Mpsc.advance, Mpsc.State.setNode, Mpsc.State.setCell, State.consumed]
  rfl

/-- `peek` finds the ring empty. -/
def exhausting : List (Action ι) := [.peek .head, .peek .tail]

theorem exhausts (inv : Inv s) (outside : s.callers s.threadId = .outside) (draining : s.phase = .draining)
    (idle : s.queue.consumer = .idle) (empty : s.queue.popped = s.queue.cells.length) :
    exec (guarded step Bounded) s exhausting = some { s with phase := .swapping } := by
  obtain ⟨valid, _, _⟩ := inv.at_phase draining
  have same : s.queue.buffer.head = s.queue.buffer.tail := (inv.backed.inv valid).ring.empty_iff.mpr empty
  have back : { s.queue with consumer := .idle } = s.queue := by rw [← idle]
  simp [exhausting, guarded, Bounded, step, Action.ofCaller, loopStep, draining, outside, valid, Peek.access,
    Mpsc.step, Mpsc.consumerStep, idle, State.afterPeek, same, back]

/-- The loop thread collects an empty batch and drains up to the head node of the ring. -/
def taking : List (Action ι) :=
  [.poll [], .drain, .peek .head, .peek .tail, .peek .node, .peek .id, .take]

def State.taken (s : State ι) (f : Functor ι) (node : Nat) : State ι :=
  { s with
    queue := { s.queue with consumer := .reading node (some f) }
    callingPendingFunctors := true
    phase := .running f
    started := s.started ++ [f] }

theorem takes (inv : Inv s) (valid : s.queue.buffer.valid = true) (outside : s.callers s.threadId = .outside)
    (polling : s.phase = .polling) {owner : ι} {node : Nat} {f : Functor ι} {id : BitVec 32}
    (present : s.queue.cells[s.queue.popped]? = some ⟨owner, node, .committed (some f) id⟩) :
    exec (guarded step Bounded) s taking = some (s.taken f node) := by
  have begun : exec (guarded step Bounded) s [.poll [], .drain] =
      some { s with callingPendingFunctors := true, phase := .draining } := by
    simp [guarded, Bounded, step, Action.ofCaller, loopStep, polling, outside, valid]
  have next : Inv { s with callingPendingFunctors := true, phase := .draining } :=
    inv.reaches (exec_guarded_reaches begun)
  show exec (guarded step Bounded) s ([.poll [], .drain] ++ fetching) = _
  rw [exec_append, begun, Option.bind_some]
  exact fetches next outside rfl (inv.at_phase polling).1 present

/-- The loop thread ends the execution of the only functor in the ring and goes back to `epoll_wait`. -/
def leaving : List (Action ι) :=
  [.done, .clear, .advance, .peek .head, .peek .tail, .swap, .leave]

def State.left (s : State ι) (f : Functor ι) (node : Nat) : State ι :=
  { s with
    queue := { s.queue with
      buffer := { s.queue.buffer with
        head := s.queue.buffer.head + BitVec.ofNat 32 Mpsc.nodeSize
        data := Function.update s.queue.buffer.data node .zeroed }
      consumer := .idle
      consumed := s.queue.consumed ++ [some f]
      cells := s.queue.cells.modify s.queue.popped (Mpsc.Cell.progress .retire) }
    pendingFunctors := []
    callingPendingFunctors := false
    phase := .polling
    finished := s.finished ++ [f] }

theorem leaves (inv : Inv s) (outside : s.callers s.threadId = .outside) {f : Functor ι}
    (running : s.phase = .running f) (last : s.queue.popped + 1 = s.queue.cells.length)
    (none : s.pendingFunctors = []) (going : s.quit = false) :
    ∃ node, exec (guarded step Bounded) s leaving = some (s.left f node) := by
  obtain ⟨node, ran⟩ := consumes inv outside running
  have next : Inv (s.consumed f node) := inv.reaches (exec_guarded_reaches ran)
  have empty : (s.consumed f node).queue.popped = (s.consumed f node).queue.cells.length := by
    simp only [State.consumed, Mpsc.State.popped, List.length_append, List.length_modify]
    exact last
  exists node
  show exec (guarded step Bounded) s (consuming ++ (exhausting ++ [.swap, .leave])) = _
  rw [exec_append, ran, Option.bind_some, exec_append, exhausts next outside rfl rfl empty, Option.bind_some]
  simp [guarded, Bounded, step, Action.ofCaller, loopStep, State.consumed, State.left, outside, none, going]

/-- The loop waits for events and nothing is queued. -/
structure Sleeping (s : State ι) : Prop where
  phase : s.phase = .polling
  outside : s.callers s.threadId = .outside
  valid : s.queue.buffer.valid = true
  empty : s.queue.popped = s.queue.cells.length
  pending : s.pendingFunctors = []
  going : s.quit = false

/-- A thread queues a functor, and the loop executes it and goes back to sleep. -/
theorem round (inv : Inv s) (sleeping : Sleeping s) (thread : ι) (foreign : thread ≠ s.threadId)
    (outside : s.callers thread = .outside) :
    ∃ t, Reaches step Bounded s t ∧ Sleeping t ∧ t.threadId = s.threadId ∧ t.callers = s.callers ∧
      t.queue.producers = s.queue.producers ∧ t.queue.buffer.order = s.queue.buffer.order ∧
      t.queue.cells.length = s.queue.cells.length + 1 := by
  have room : s.queue.cells.length < s.queue.popped + s.queue.buffer.capacity := by
    have positive := s.queue.buffer.capacity_pos
    rw [sleeping.empty]
    omega
  obtain ⟨slot, queued⟩ : ∃ slot, exec (guarded step Bounded) s (publishing thread) =
      some (s.published thread slot) :=
    ⟨_, publishes inv thread sleeping.valid (.of_foreign foreign outside) room⟩
  have first := exec_guarded_reaches queued
  have head := published_last s thread slot
  have last := published_length s thread slot
  rw [← sleeping.empty] at head last
  have ran := takes (inv.reaches first) sleeping.valid sleeping.outside sleeping.phase head
  have second := first.trans (exec_guarded_reaches ran)
  obtain ⟨node, done⟩ := leaves (inv.reaches second) sleeping.outside rfl last.symm sleeping.pending sleeping.going
  refine ⟨_, second.trans (exec_guarded_reaches done),
    ⟨rfl, sleeping.outside, sleeping.valid, ?_, rfl, sleeping.going⟩, rfl, rfl, rfl, rfl, ?_⟩
  · simp only [State.left, Mpsc.State.popped, List.length_append, List.length_modify]
    exact last.symm
  · simp only [State.left, List.length_modify]
    rw [State.taken, published_length]

theorem rounds (inv : Inv s) (sleeping : Sleeping s) (thread : ι) (foreign : thread ≠ s.threadId)
    (outside : s.callers thread = .outside) (count : Nat) :
    ∃ t, Reaches step Bounded s t ∧ Sleeping t ∧ t.threadId = s.threadId ∧ t.callers = s.callers ∧
      t.queue.producers = s.queue.producers ∧ t.queue.buffer.order = s.queue.buffer.order ∧
      t.queue.cells.length = s.queue.cells.length + count := by
  induction count with
  | zero => exact ⟨s, .refl s, sleeping, rfl, rfl, rfl, rfl, rfl⟩
  | succ count induction =>
    obtain ⟨t, run, sleeps, threadId, callers, producers, order, length⟩ := induction
    obtain ⟨u, again, rests, same, kept, idle, size, more⟩ :=
      round (inv.reaches run) sleeps thread (by rw [threadId]; exact foreign) (by rw [callers, outside])
    refine ⟨u, run.trans again, rests, same.trans threadId, kept.trans callers, idle.trans producers,
      size.trans order, ?_⟩
    omega

end Hvnetpp.Loop
