import Hvnetpp.Loop.Traffic

namespace Hvnetpp.Loop

open Machine

variable {ι : Type} {s t : State ι}

/-- A thread stays on one route while its functors wait there: it takes no slot of the ring while one of
    them waits in `pendingFunctors_`, and does not fall back while one of them waits in the ring. -/
def RouteKept (s : State ι) : Action ι → Prop
  | .exchange t spurious => spurious = false → s.queue.attempt t = some s.queue.buffer.tail →
      ∀ f ∈ s.pendingFunctors, f.caller ≠ t
  | .push t => ∀ f ∈ s.ringFunctors, f.caller ≠ t
  | _ => True

def InCallOrder (f g : Functor ι) : Prop := f.caller = g.caller → f.seq < g.seq

/-- The pipeline lists each thread's functors in call order, and a thread waits in one queue only. -/
structure Ordered (s : State ι) : Prop where
  pipeline : s.pipeline.Pairwise InCallOrder
  apart : ∀ f ∈ s.ringFunctors, ∀ g ∈ s.pendingFunctors, f.caller ≠ g.caller

theorem Ordered.initial (threadId : ι) (mapped : Bool) : Ordered (State.initial threadId mapped) := by
  constructor
  · simp [State.pipeline, State.ringFunctors, State.initial, Mpsc.State.initial, Phase.rest]
  · simp [State.initial]

theorem Inv.inCallOrder_held (inv : Inv s) {thread : ι} {f : Functor ι}
    (held : s.callers thread = .holding f) (free : ∀ node, s.queue.producers thread ≠ .reserved node) :
    ∀ g ∈ s.pipeline, InCallOrder g f := by
  intro g member same
  have own := (inv.holding held).1
  exact inv.newest held free member (same.trans own)

/-- A functor whose thread waits nowhere behind the place it is put joins in call order. -/
theorem pairwise_insert {before after : List (Functor ι)} {f : Functor ι}
    (ordered : (before ++ after).Pairwise InCallOrder) (newest : ∀ g ∈ before, InCallOrder g f)
    (apart : ∀ g ∈ after, f.caller ≠ g.caller) : (before ++ f :: after).Pairwise InCallOrder := by
  rw [List.pairwise_append] at ordered ⊢
  obtain ⟨left, right, across⟩ := ordered
  refine ⟨left, ?_, ?_⟩
  · apply List.Pairwise.cons _ right
    intro g member same
    exact absurd same (apart g member)
  · intro g member h later
    rcases List.mem_cons.mp later with rfl | later
    · exact newest g member
    · exact across g member h later

theorem pairwise_exchange {front left right : List (Functor ι)}
    (ordered : (front ++ left ++ right).Pairwise InCallOrder)
    (apart : ∀ f ∈ left, ∀ g ∈ right, f.caller ≠ g.caller) :
    (front ++ right ++ left).Pairwise InCallOrder := by
  simp only [List.append_assoc, List.pairwise_append, List.mem_append] at ordered ⊢
  obtain ⟨first, ⟨second, third, _⟩, across⟩ := ordered
  refine ⟨first, ⟨third, second, ?_⟩, ?_⟩
  · intro g member f waiting same
    exact absurd same.symm (apart f waiting g member)
  · intro f member g later
    exact across f member g later.symm

theorem Ordered.effect (ordered : Ordered s) (inv : Inv s) {action : Action ι} (kept : RouteKept s action)
    (effect : Effect s t action) : Ordered t := by
  cases effect with
  | still still =>
    constructor
    · rw [still.pipeline]
      exact ordered.pipeline
    · rw [still.ring, still.pending]
      exact ordered.apart
  | @reserved thread f held won settled ring pending =>
    have own := (inv.holding held).1
    have free : ∀ node, s.queue.producers thread ≠ .reserved node := by
      intro node reserved
      simp [Mpsc.State.attempt, reserved] at won
    have newest := inv.inCallOrder_held held free
    have alone : ∀ g ∈ s.pendingFunctors, f.caller ≠ g.caller := by
      intro g member same
      exact kept rfl won g member (same.symm.trans own)
    constructor
    · have inserted : t.pipeline =
          (s.started ++ s.phase.rest ++ s.ringFunctors) ++ f :: s.pendingFunctors := by
        rw [State.pipeline, settled, ring, pending]
        simp
      rw [inserted]
      apply pairwise_insert ordered.pipeline _ alone
      intro g member
      exact newest g (List.mem_append_left _ member)
    · rw [ring, pending]
      intro g member
      rcases List.mem_append.mp member with before | last
      · exact ordered.apart g before
      · rw [List.mem_singleton.mp last]
        exact alone
  | pushed f held free settled ring pending =>
    have own := (inv.holding held).1
    have newest := inv.inCallOrder_held held free
    constructor
    · have appended : t.pipeline = s.pipeline ++ [f] := by
        rw [State.pipeline, State.pipeline, settled, ring, pending]
        simp
      rw [appended]
      apply pairwise_insert _ newest (by simp)
      rw [List.append_nil]
      exact ordered.pipeline
    · rw [ring, pending]
      intro g waiting h member
      rcases List.mem_append.mp member with before | last
      · exact ordered.apart g waiting h before
      · rw [List.mem_singleton.mp last, own]
        exact kept g waiting
  | taken f settled ring pending =>
    constructor
    · have same : t.pipeline = s.pipeline := by
        rw [State.pipeline, State.pipeline, settled, ring, pending]
        simp
      rw [same]
      exact ordered.pipeline
    · rw [pending]
      intro g member
      apply ordered.apart g
      rw [ring]
      exact List.mem_cons_of_mem f member
  | swapped settled ring pending =>
    constructor
    · rw [State.pipeline, settled, ring, pending, List.append_nil]
      exact pairwise_exchange ordered.pipeline ordered.apart
    · rw [pending]
      simp

section Runs

variable [DecidableEq ι]

/-- The functors of one thread are executed in the order of its calls, as long as the thread keeps to one
    route while it waits there. -/
theorem started_in_call_order {threadId : ι} {mapped : Bool}
    (run : Reaches step (fun s a => Bounded s a ∧ RouteKept s a) (State.initial threadId mapped) s)
    {f g : Functor ι} (same : f.caller = g.caller) (earlier : f.seq < g.seq) {i j : Nat}
    (first : s.started[i]? = some f) (second : s.started[j]? = some g) : i < j := by
  have both : Inv s ∧ Ordered s := by
    apply run.keeps ⟨Inv.initial threadId mapped, Ordered.initial threadId mapped⟩
    intro before action after held admitted taken
    obtain ⟨next, effect⟩ := held.1.step admitted.1 taken
    exact ⟨next, held.2.effect held.1 admitted.2 effect⟩
  have ordered := both.2.pipeline
  simp only [State.pipeline, List.append_assoc, List.pairwise_append] at ordered
  have started := List.pairwise_iff_getElem.mp ordered.1
  obtain ⟨hi, rfl⟩ := List.getElem?_eq_some_iff.mp first
  obtain ⟨hj, rfl⟩ := List.getElem?_eq_some_iff.mp second
  rcases Nat.lt_trichotomy i j with before | rfl | after
  · exact before
  · exact absurd earlier (Nat.lt_irrefl _)
  · have later := started j i hj hi after same.symm
    exact absurd later (Nat.lt_asymm earlier)

instance (s : State ι) (action : Action ι) : Decidable (RouteKept s action) :=
  match action with
  | .exchange t spurious => inferInstanceAs (Decidable (spurious = false →
      s.queue.attempt t = some s.queue.buffer.tail → ∀ f ∈ s.pendingFunctors, f.caller ≠ t))
  | .push t => inferInstanceAs (Decidable (∀ f ∈ s.ringFunctors, f.caller ≠ t))
  | .call _ | .loadHead _ | .loadTail _ | .store _ | .commit _ | .wake _ | .quit _ | .quitWake _
  | .enter | .poll _ | .dispatch | .handled | .drain | .peek _ | .take | .done | .clear | .advance
  | .swap | .serve | .served | .leave => isTrue trivial

/-- Two calls through the ring while the loop sleeps, then one turn of the loop. -/
def twoCalls (thread : ι) : List (Action ι) :=
  .enter :: publishing thread ++ publishing thread ++ [.poll [.wakeup], .dispatch, .drain] ++
    [.peek .head, .peek .tail, .peek .node, .peek .id, .take, .done, .clear, .advance] ++
    [.peek .head, .peek .tail, .peek .node, .peek .id, .take]

theorem started_in_call_order_twoCalls : ∃ s : State (Fin 2), s.started = [⟨1, 0⟩, ⟨1, 1⟩] ∧
    ∀ i j : Nat, s.started[i]? = some ⟨1, 0⟩ → s.started[j]? = some ⟨1, 1⟩ → i < j := by
  have ran : (exec (guarded step fun s a => Bounded s a ∧ RouteKept s a) (State.initial 0 true)
      (twoCalls (1 : Fin 2))).map State.started = some [⟨1, 0⟩, ⟨1, 1⟩] := by decide
  obtain ⟨s, reached, started⟩ := Option.map_eq_some_iff.mp ran
  refine ⟨s, started, ?_⟩
  intro i j first second
  exact started_in_call_order (f := ⟨1, 0⟩) (g := ⟨1, 1⟩) (exec_guarded_reaches reached) rfl (by decide)
    first second

/-- Thread 1 queues a functor after the drain of the ring has ended and another when thread 2 has filled
    the ring: the second one is swapped out and executed before the first. -/
theorem started_against_call_order :
    ∃ s : State (Fin 3), Reaches step Bounded (State.initial 0 true) s ∧
      s.started = [⟨1, 1⟩, ⟨1, 0⟩] := by
  let drained : State (Fin 3) :=
    { State.initial 0 true with phase := .swapping, callingPendingFunctors := true }
  have first : exec (guarded step Bounded) (State.initial 0 true)
      [.enter, .poll [], .drain, .peek .head, .peek .tail] = some drained := rfl
  have run := exec_guarded_reaches first
  have queued := publishes (reachable_inv run) 1 rfl (.of_foreign (by decide) rfl) (by decide)
  replace run := run.trans (exec_guarded_reaches queued)
  obtain ⟨full, flooding, undisturbed, length⟩ :=
    floods (reachable_inv run) 2 rfl (by decide) rfl 1023 (by decide)
  replace run := run.trans flooding
  have atFull : full.queue.cells.length = full.queue.popped + full.queue.buffer.capacity := by
    rw [length, Mpsc.State.popped, Mpsc.CircularBuffer.capacity, undisturbed.consumed, undisturbed.order]
    rfl
  have overflow := overflows (reachable_inv run) 1 undisturbed.valid
    (.of_foreign (by rw [undisturbed.threadId]; decide) (by rw [undisturbed.callers]; rfl)) atFull
  replace run := run.trans (exec_guarded_reaches overflow)
  have second : full.calls 1 = 1 := undisturbed.calls 1 (by decide)
  have pending : (full.overflowed 1).pendingFunctors = [⟨1, 1⟩] := by
    simp only [State.overflowed, undisturbed.pending, second]
    rfl
  have swapping : (full.overflowed 1).phase = .swapping := undisturbed.phase
  have outside : (full.overflowed 1).callers (full.overflowed 1).threadId = .outside := by
    simp only [State.overflowed, undisturbed.callers]
    rfl
  have going : (full.overflowed 1).quit = false := undisturbed.quit
  have served : exec (guarded step Bounded) (full.overflowed 1) [.swap, .serve, .served, .leave] =
      some { full.overflowed 1 with
        phase := .polling, pendingFunctors := [], callingPendingFunctors := false,
        started := (full.overflowed 1).started ++ [⟨1, 1⟩],
        finished := (full.overflowed 1).finished ++ [⟨1, 1⟩] } := by
    simp [guarded, Bounded, step, Action.ofCaller, loopStep, swapping, outside, pending, going]
  replace run := run.trans (exec_guarded_reaches served)
  have head : full.queue.cells[full.queue.popped]? =
      some ⟨1, Mpsc.slotOf pendingOrder 0, .committed (some ⟨1, 0⟩) 1⟩ := by
    obtain ⟨more, split⟩ := undisturbed.cells
    rw [← split, Mpsc.State.popped, undisturbed.consumed]
    rfl
  have last := takes (reachable_inv run) undisturbed.valid outside rfl head
  refine ⟨_, run.trans (exec_guarded_reaches last), ?_⟩
  simp only [State.taken, State.overflowed, undisturbed.started]
  rfl

end Runs

end Hvnetpp.Loop
