import Hvnetpp.Loop.Batch
import Hvnetpp.Loop.Traffic

namespace Hvnetpp.Loop

open Machine

variable {ι : Type} {s t : State ι}

/-- `functorPtr` of the nodes that are not consumed. -/
def State.nodes (s : State ι) : List (Option (Functor ι)) :=
  (s.queue.cells.drop s.queue.popped).map fun cell => cell.stage.payload.join

variable {σ : Type} {calls : Nat} {p q : Pending (σ × Nat) (Functor ι)}

/-- No other thread is in a call, the loop thread has made `calls` calls of `queueInLoop`, and what is pending is
    what `p` says. -/
structure Follows (s : State ι) (calls : Nat) (p : Pending (σ × Nat) (Functor ι)) : Prop where
  inv : Inv s
  alone : ∀ thread, s.callers thread = .outside
  ring : p.ring = if s.queue.buffer.valid then some s.nodes else none
  capacity : p.capacity = s.queue.buffer.capacity
  pending : p.pendingFunctors = s.pendingFunctors
  calling : p.callingPendingFunctors = s.callingPendingFunctors
  wakeupFd : p.wakeupFd = s.wakeupFd
  executed : p.executed = s.started
  calls : s.calls s.threadId = calls

/-- User code in which a functor queues a number of functors; they are named by the calls. -/
def numbered (threadId : ι) (count : σ → Functor ι → σ × Nat) : Body (σ × Nat) (Functor ι) :=
  fun user f =>
    (((count user.1 f).1, user.2 + (count user.1 f).2),
      (List.range' user.2 (count user.1 f).2).map fun seq => ⟨threadId, seq⟩)

/-- While no thread is in a call every reservation is committed. -/
theorem Follows.committed (follows : Follows s calls p) (valid : s.queue.buffer.valid = true)
    (idle : s.queue.consumer = .idle) {i : Nat} {cell : Mpsc.Cell ι (Option (Functor ι))} (waits : s.queue.popped ≤ i)
    (present : s.queue.cells[i]? = some cell) : ∃ f id, cell.stage = .committed (some f) id := by
  have queue := follows.inv.backed.inv valid
  have home : s.queue.producers cell.owner = .idle := follows.inv.outside_idle (follows.alone cell.owner)
  obtain ⟨f, entry⟩ := follows.inv.entries i cell present
  unfold State.cellFunctor at entry
  cases stage : cell.stage with
  | reserved =>
    have owner := (follows.inv.reserved_owner present stage).1
    rw [home] at owner
    cases owner
  | written pointer =>
    have owner := (follows.inv.written_owner present stage).1
    rw [home] at owner
    cases owner
  | committed pointer id =>
    rw [stage] at entry
    exact ⟨f, id, by rw [show pointer = some f from entry]⟩
  | retired pointer =>
    obtain ⟨_, node, cleared⟩ := queue.future i cell pointer waits present stage
    rw [idle] at cleared
    cases cleared

theorem nodes_length (s : State ι) : s.nodes.length = s.queue.cells.length - s.queue.popped := by
  rw [State.nodes, List.length_map, List.length_drop]

theorem Follows.ring_valid (follows : Follows s calls p) {nodes : List (Option (Functor ι))}
    (present : p.ring = some nodes) : s.queue.buffer.valid = true ∧ s.nodes = nodes := by
  rw [follows.ring] at present
  cases valid : s.queue.buffer.valid with
  | false =>
    rw [valid] at present
    cases present
  | true =>
    rw [valid] at present
    exact ⟨rfl, Option.some.inj present⟩

variable [DecidableEq ι]

/-- What a call of `queueInLoop` leaves alone. -/
structure Passes (s t : State ι) : Prop where
  threadId : t.threadId = s.threadId
  phase : t.phase = s.phase
  calling : t.callingPendingFunctors = s.callingPendingFunctors

theorem published_nodes (s : State ι) (thread : ι) (node : Nat) (started : s.queue.popped ≤ s.queue.cells.length) :
    (s.published thread node).nodes = s.nodes ++ [some ⟨thread, s.calls thread⟩] := by
  show ((s.queue.cells ++ [_]).drop s.queue.popped).map _ = _
  rw [List.drop_append_of_le_length started, List.map_append]
  rfl

section Calls

variable (follows : Follows s calls p) (phase : s.phase.userCode = true) (calling : s.callingPendingFunctors = true)

include follows phase calling

/-- The loop thread calls `queueInLoop` in a functor, and finds room in the ring. -/
theorem Follows.published (valid : s.queue.buffer.valid = true) (room : s.nodes.length < s.queue.buffer.capacity) :
    ∃ t, Reaches step Bounded s t ∧ Passes s t ∧ Follows t (calls + 1) (p.queueInLoop ⟨s.threadId, calls⟩) := by
  have started := (follows.inv.backed.inv valid).ring.started
  have free := room
  rw [nodes_length] at free
  have ran := publishes follows.inv s.threadId valid ⟨⟨follows.alone _, fun _ => phase⟩, .inr calling⟩ (by omega)
  have run := exec_guarded_reaches ran
  have ring : p.ring = some s.nodes := follows.ring.trans (if_pos valid)
  have same := follows.calls
  subst same
  refine ⟨_, run, ⟨rfl, rfl, rfl⟩, ?_⟩
  rw [Pending.queueInLoop_ring (follows.calling.trans calling) ring (by rw [follows.capacity]; exact room)]
  refine ⟨follows.inv.reaches run, follows.alone, ?_, follows.capacity, follows.pending, follows.calling,
    congrArg signal follows.wakeupFd, follows.executed, Function.update_self _ _ _⟩
  rw [published_nodes _ _ _ started]
  exact (if_pos valid).symm

/-- The ring is full. -/
theorem Follows.overflowed (valid : s.queue.buffer.valid = true)
    (full : ¬ s.nodes.length < s.queue.buffer.capacity) :
    ∃ t, Reaches step Bounded s t ∧ Passes s t ∧ Follows t (calls + 1) (p.queueInLoop ⟨s.threadId, calls⟩) := by
  have started := (follows.inv.backed.inv valid).ring.started
  have within := (follows.inv.backed.inv valid).ring.within
  have taken := full
  rw [nodes_length] at taken
  have ran := overflows follows.inv s.threadId valid ⟨⟨follows.alone _, fun _ => phase⟩, .inr calling⟩ (by omega)
  have run := exec_guarded_reaches ran
  have beyond : ∀ nodes ∈ p.ring, ¬ nodes.length < p.capacity := by
    intro nodes present
    rw [follows.ring, if_pos valid] at present
    cases present
    rw [follows.capacity]
    exact full
  have same := follows.calls
  subst same
  refine ⟨_, run, ⟨rfl, rfl, rfl⟩, ?_⟩
  rw [Pending.queueInLoop_vector (follows.calling.trans calling) beyond]
  exact ⟨follows.inv.reaches run, follows.alone, follows.ring, follows.capacity,
    congrArg (· ++ [_]) follows.pending, follows.calling, congrArg signal follows.wakeupFd, follows.executed,
    Function.update_self _ _ _⟩

/-- There is no ring. -/
theorem Follows.pushed (invalid : s.queue.buffer.valid = false) :
    ∃ t, Reaches step Bounded s t ∧ Passes s t ∧ Follows t (calls + 1) (p.queueInLoop ⟨s.threadId, calls⟩) := by
  have may : s.mayCall s.threadId := ⟨follows.alone _, fun _ => phase⟩
  have away := (follows.inv.home (follows.alone s.threadId)).1
  have ran : exec (guarded step Bounded) s [.call s.threadId, .push s.threadId, .wake s.threadId] =
      some { s with
        pendingFunctors := s.pendingFunctors ++ [⟨s.threadId, s.calls s.threadId⟩]
        calls := Function.update s.calls s.threadId (s.calls s.threadId + 1)
        wakeupFd := signal s.wakeupFd } := by
    simp [guarded, Bounded, step, Action.ofCaller, callerStep, may, State.setCaller, invalid, calling, State.wakeup,
      away]
  have run := exec_guarded_reaches ran
  have beyond : ∀ nodes ∈ p.ring, ¬ nodes.length < p.capacity := by
    intro nodes present
    rw [follows.ring, invalid] at present
    cases present
  have same := follows.calls
  subst same
  refine ⟨_, run, ⟨rfl, rfl, rfl⟩, ?_⟩
  rw [Pending.queueInLoop_vector (follows.calling.trans calling) beyond]
  exact ⟨follows.inv.reaches run, follows.alone, follows.ring, follows.capacity,
    congrArg (· ++ [_]) follows.pending, follows.calling, congrArg signal follows.wakeupFd, follows.executed,
    Function.update_self _ _ _⟩

theorem Follows.queueInLoop :
    ∃ t, Reaches step Bounded s t ∧ Passes s t ∧ Follows t (calls + 1) (p.queueInLoop ⟨s.threadId, calls⟩) := by
  cases valid : s.queue.buffer.valid with
  | false => exact follows.pushed phase calling valid
  | true =>
    by_cases room : s.nodes.length < s.queue.buffer.capacity
    · exact follows.published phase calling valid room
    · exact follows.overflowed phase calling valid room

theorem Follows.queueAll (count : Nat) : ∃ t, Reaches step Bounded s t ∧ Passes s t ∧
    Follows t (calls + count)
      (((List.range' calls count).map (Functor.mk s.threadId)).foldl Pending.queueInLoop p) := by
  induction count generalizing s calls p with
  | zero => exact ⟨s, .refl s, ⟨rfl, rfl, rfl⟩, follows⟩
  | succ count induction =>
    obtain ⟨next, first, passes, queued⟩ := follows.queueInLoop phase calling
    obtain ⟨t, others, passed, reached⟩ :=
      induction queued (by rw [passes.phase]; exact phase) (by rw [passes.calling]; exact calling)
    refine ⟨t, first.trans others, ⟨passed.threadId.trans passes.threadId, passed.phase.trans passes.phase,
      passed.calling.trans passes.calling⟩, ?_⟩
    rw [passes.threadId] at reached
    rw [List.range'_succ, List.map_cons, List.foldl_cons]
    have sum : calls + (count + 1) = calls + 1 + count := by omega
    rw [sum]
    exact reached

end Calls

theorem Follows.execute {f : Functor ι} (count : σ → Functor ι → σ × Nat)
    (begun : Follows s p.user.2 { p with executed := p.executed ++ [f] }) (phase : s.phase.userCode = true)
    (calling : s.callingPendingFunctors = true) : ∃ t, Reaches step Bounded s t ∧ Passes s t ∧
    Follows t (p.execute (numbered s.threadId count) f).user.2 (p.execute (numbered s.threadId count) f) := by
  have told : Follows s p.user.2
      { p with user := (numbered s.threadId count p.user f).1, executed := p.executed ++ [f] } := { begun with }
  rw [Pending.execute_user]
  exact told.queueAll phase calling _

/-- The head node's functor is taken. -/
theorem Follows.fetch (follows : Follows s calls p) (draining : s.phase = .draining)
    (idle : s.queue.consumer = .idle) {task : Option (Functor ι)} {rest : List (Option (Functor ι))}
    (present : p.ring = some (task :: rest)) :
    ∃ f t, task = some f ∧ Reaches step Bounded s t ∧ t.phase = .running f ∧ t.threadId = s.threadId ∧
      t.callingPendingFunctors = true ∧ Follows t calls { p with executed := p.executed ++ [f] } := by
  obtain ⟨valid, nodes⟩ := follows.ring_valid present
  obtain ⟨cell, others, cells, payload, _⟩ := List.map_eq_cons_iff.mp nodes
  have head : s.queue.cells[s.queue.popped]? = some cell := by
    rw [← List.head?_drop, cells]
    rfl
  obtain ⟨f, id, stage⟩ := follows.committed valid idle (Nat.le_refl _) head
  have taken : task = some f := by
    rw [← payload, stage]
    rfl
  obtain ⟨owner, node, _⟩ := cell
  cases stage
  have ran := fetches follows.inv (follows.alone _) draining idle head
  have run := exec_guarded_reaches ran
  have calling : s.callingPendingFunctors = true := (follows.inv.at_phase draining).2.1
  exact ⟨f, _, taken, run, rfl, rfl, calling, follows.inv.reaches run, follows.alone, follows.ring,
    follows.capacity, follows.pending, follows.calling, follows.wakeupFd, congrArg (· ++ [f]) follows.executed,
    follows.calls⟩

theorem Follows.consume (follows : Follows s calls p) {f : Functor ι} (running : s.phase = .running f) :
    ∃ t, Reaches step Bounded s t ∧ t.phase = .draining ∧ t.queue.consumer = .idle ∧ t.threadId = s.threadId ∧
      Follows t calls p.consume := by
  have valid : s.queue.buffer.valid = true := (follows.inv.at_phase running).1
  obtain ⟨node, ran⟩ := consumes follows.inv (follows.alone _) running
  have run := exec_guarded_reaches ran
  have nodes : (s.consumed f node).nodes = s.nodes.tail := by
    have popped : (s.consumed f node).queue.popped = s.queue.popped + 1 := by
      simp only [State.consumed, Mpsc.State.popped, List.length_append, List.length_singleton]
    rw [State.nodes, popped, State.nodes, ← List.map_tail, List.tail_drop]
    show ((s.queue.cells.modify s.queue.popped _).drop (s.queue.popped + 1)).map _ = _
    rw [List.drop_modify_of_lt _ _ _ _ (Nat.lt_succ_self _)]
  refine ⟨_, run, rfl, rfl, rfl, follows.inv.reaches run, follows.alone, ?_, follows.capacity, follows.pending,
    follows.calling, follows.wakeupFd, follows.executed, follows.calls⟩
  rw [nodes]
  show p.ring.map List.tail = if s.queue.buffer.valid then _ else _
  rw [follows.ring, if_pos valid, if_pos valid]
  rfl

theorem Follows.exhaust (follows : Follows s calls p) (draining : s.phase = .draining)
    (idle : s.queue.consumer = .idle) (empty : p.ring = some []) :
    ∃ t, Reaches step Bounded s t ∧ t.phase = .swapping ∧ t.threadId = s.threadId ∧ Follows t calls p := by
  obtain ⟨valid, nodes⟩ := follows.ring_valid empty
  have started := (follows.inv.backed.inv valid).ring.started
  have length := nodes_length s
  rw [nodes, List.length_nil] at length
  have ran := exhausts follows.inv (follows.alone _) draining idle (by omega)
  have run := exec_guarded_reaches ran
  exact ⟨_, run, rfl, rfl, follows.inv.reaches run, follows.alone, follows.ring, follows.capacity,
    follows.pending, follows.calling, follows.wakeupFd, follows.executed, follows.calls⟩

variable (count : σ → Functor ι → σ × Nat) {threadId : ι}

/-- The `while (true)` loop, node by node. -/
theorem Follows.drain {fuel : Nat} (follows : Follows s p.user.2 p) (own : s.threadId = threadId)
    (draining : s.phase = .draining) (idle : s.queue.consumer = .idle)
    (ran : p.drain (numbered threadId count) fuel = some q) :
    ∃ t, Reaches step Bounded s t ∧ t.phase = .swapping ∧ t.threadId = threadId ∧ Follows t q.user.2 q := by
  induction fuel generalizing s p with
  | zero => cases ran
  | succ fuel induction =>
    have valid : s.queue.buffer.valid = true := (follows.inv.at_phase draining).1
    have ring : p.ring = some s.nodes := follows.ring.trans (if_pos valid)
    cases nodes : s.nodes with
    | nil =>
      rw [nodes] at ring
      simp only [Pending.drain, ring, Option.some.injEq] at ran
      cases ran
      obtain ⟨t, run, swapping, same, reached⟩ := follows.exhaust draining idle ring
      exact ⟨t, run, swapping, same.trans own, reached⟩
    | cons task rest =>
      rw [nodes] at ring
      obtain ⟨f, first, rfl, fetched, running, same, calling, begun⟩ := follows.fetch draining idle ring
      rw [own] at same
      have user : first.phase.userCode = true := by
        rw [running]
        rfl
      obtain ⟨second, executed, passes, done⟩ := begun.execute count user calling
      rw [same] at done
      obtain ⟨third, consumed, again, home, last, left⟩ := done.consume (passes.phase.trans running)
      simp only [Pending.drain, ring] at ran
      obtain ⟨t, others, swapping, whose, reached⟩ :=
        induction left (last.trans (passes.threadId.trans same)) again home ran
      exact ⟨t, fetched.trans (executed.trans (consumed.trans others)), swapping, whose, reached⟩

/-- The range-for over the vector. -/
theorem Follows.serve {functors : List (Functor ι)} (follows : Follows s p.user.2 p) (own : s.threadId = threadId)
    (serving : s.phase = .serving functors) :
    ∃ t, Reaches step Bounded s t ∧ t.phase = .serving [] ∧ t.threadId = threadId ∧
      Follows t (functors.foldl (Pending.execute (numbered threadId count)) p).user.2
        (functors.foldl (Pending.execute (numbered threadId count)) p) := by
  induction functors generalizing s p with
  | nil => exact ⟨s, .refl s, serving, own, follows⟩
  | cons f rest induction =>
    have calling : s.callingPendingFunctors = true := (follows.inv.at_phase serving).2
    have serve : exec (guarded step Bounded) s [.serve] =
        some { s with phase := .executing f rest, started := s.started ++ [f] } := by
      simp [guarded, Bounded, step, Action.ofCaller, loopStep, serving, follows.alone]
    have begins := exec_guarded_reaches serve
    have begun : Follows { s with phase := .executing f rest, started := s.started ++ [f] } p.user.2
        { p with executed := p.executed ++ [f] } :=
      ⟨follows.inv.reaches begins, follows.alone, follows.ring, follows.capacity, follows.pending,
        follows.calling, follows.wakeupFd, congrArg (· ++ [f]) follows.executed, follows.calls⟩
    obtain ⟨next, executed, passes, done⟩ := begun.execute count rfl calling
    have same : next.threadId = threadId := passes.threadId.trans own
    change Follows next (p.execute (numbered s.threadId count) f).user.2 (p.execute (numbered s.threadId count) f) at done
    rw [own] at done
    have ended : exec (guarded step Bounded) next [.served] =
        some { next with phase := .serving rest, finished := next.finished ++ [f] } := by
      simp [guarded, Bounded, step, Action.ofCaller, loopStep, passes.phase, done.alone]
    have ends := exec_guarded_reaches ended
    have after : Follows { next with phase := .serving rest, finished := next.finished ++ [f] } _
        (p.execute (numbered threadId count) f) :=
      ⟨done.inv.reaches ends, done.alone, done.ring, done.capacity, done.pending, done.calling, done.wakeupFd,
        done.executed, done.calls⟩
    obtain ⟨t, others, served, whose, reached⟩ := induction after same rfl
    exact ⟨t, begins.trans (executed.trans (ends.trans others)), served, whose, reached⟩

/-- `doPendingFunctors` up to the end of its loop over the ring, which is skipped without one. -/
theorem Follows.begin {fuel : Nat} (follows : Follows s p.user.2 p) (own : s.threadId = threadId)
    (dispatched : s.phase = .dispatching [])
    (ran : Pending.drain (numbered threadId count) fuel { p with callingPendingFunctors := true } = some q) :
    ∃ t, Reaches step Bounded s t ∧ t.phase = .swapping ∧ t.threadId = threadId ∧ Follows t q.user.2 q := by
  have begins : exec (guarded step Bounded) s [.drain] =
      some { s with
        callingPendingFunctors := true
        phase := if s.queue.buffer.valid then .draining else .swapping } := by
    simp [guarded, Bounded, step, Action.ofCaller, loopStep, dispatched, follows.alone]
  obtain ⟨entered, first, same, phase, idle, begun⟩ : ∃ t, Reaches step Bounded s t ∧ t.threadId = threadId ∧
      t.phase = (if s.queue.buffer.valid then .draining else .swapping) ∧ t.queue.consumer = .idle ∧
      Follows t p.user.2 { p with callingPendingFunctors := true } :=
    ⟨_, exec_guarded_reaches begins, own, rfl, (follows.inv.at_phase dispatched).1,
      follows.inv.reaches (exec_guarded_reaches begins), follows.alone, follows.ring, follows.capacity,
      follows.pending, rfl, follows.wakeupFd, follows.executed, follows.calls⟩
  cases valid : s.queue.buffer.valid with
  | false =>
    have ring : p.ring = none := by
      rw [follows.ring, valid]
      rfl
    rw [valid] at phase
    cases fuel with
    | zero => cases ran
    | succ fuel =>
      simp only [Pending.drain, ring, Option.some.injEq] at ran
      cases ran
      rw [ring] at begun
      exact ⟨entered, first, phase, same, begun⟩
  | true =>
    rw [valid] at phase
    obtain ⟨t, others, swapping, whose, reached⟩ := begun.drain count same phase idle ran
    exact ⟨t, first.trans others, swapping, whose, reached⟩

/-- What a call of `doPendingFunctors` does while no other thread runs is a run of the loop thread's steps in the
    system of all threads. -/
theorem doPendingFunctors_runs {fuel : Nat} (follows : Follows s p.user.2 p) (dispatched : s.phase = .dispatching [])
    (ran : p.doPendingFunctors (numbered s.threadId count) fuel = some q) :
    ∃ t, Reaches step Bounded s t ∧ t.phase = (if t.quit then .stopped else .polling) ∧ Follows t q.user.2 q := by
  obtain ⟨drained, loop, rfl⟩ := Option.map_eq_some_iff.mp ran
  obtain ⟨first, begins, swapping, own, begun⟩ := follows.begin count rfl dispatched loop
  have swap : exec (guarded step Bounded) first [.swap] =
      some { first with phase := .serving drained.pendingFunctors, pendingFunctors := [] } := by
    simp [guarded, Bounded, step, Action.ofCaller, loopStep, swapping, begun.alone, begun.pending]
  obtain ⟨middle, swaps, same, phase, swapped⟩ : ∃ t, Reaches step Bounded first t ∧ t.threadId = s.threadId ∧
      t.phase = .serving drained.pendingFunctors ∧ Follows t drained.user.2 { drained with pendingFunctors := [] } :=
    ⟨_, exec_guarded_reaches swap, own, rfl, begun.inv.reaches (exec_guarded_reaches swap), begun.alone,
      begun.ring, begun.capacity, rfl, begun.calling, begun.wakeupFd, begun.executed, begun.calls⟩
  obtain ⟨second, executed, serving, _, served⟩ :=
    Follows.serve (p := { drained with pendingFunctors := [] }) count swapped same phase
  have leave : exec (guarded step Bounded) second [.leave] =
      some { second with
        callingPendingFunctors := false
        phase := if second.quit then .stopped else .polling } := by
    simp [guarded, Bounded, step, Action.ofCaller, loopStep, serving, served.alone]
  have leaves := exec_guarded_reaches leave
  refine ⟨_, begins.trans (swaps.trans (executed.trans leaves)), rfl, ?_⟩
  exact ⟨served.inv.reaches leaves, served.alone, served.ring, served.capacity, served.pending, rfl,
    served.wakeupFd, served.executed, served.calls⟩

end Hvnetpp.Loop
