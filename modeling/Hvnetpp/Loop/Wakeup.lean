import Hvnetpp.Loop.Traffic

namespace Hvnetpp.Loop

open Machine

variable {ι : Type} {s t : State ι}

def Caller.passing : Caller ι → Option (Functor ι)
  | .holding f | .released f | .waking f => some f
  | _ => none

def State.inCall (s : State ι) (f : Functor ι) : Prop := (s.callers f.caller).passing = some f

/-- Inside `loop()` the loop thread queues only from handlers and functors. -/
def InsideLoop (s : State ι) : Action ι → Prop
  | .call t => t = s.threadId → s.phase ≠ .stopped
  | _ => True

/-- The ring was last seen drained, up to a reservation that was not committed. -/
def Phase.ringDrained : Phase ι → Bool
  | .stopped | .polling | .swapping | .serving _ | .executing _ _ => true
  | _ => false

def Phase.pendingDrained : Phase ι → Bool
  | .stopped | .polling | .serving _ | .executing _ _ => true
  | _ => false

theorem pendingDrained_ring {phase : Phase ι} (drained : phase.pendingDrained = true) :
    phase.ringDrained = true := by
  cases phase <;> simp_all [Phase.ringDrained, Phase.pendingDrained]

/-- While the counter is zero, what has been queued since the queues were last seen drained was queued by
    calls that are still on their way to the wakeup. -/
structure Awake (s : State ι) : Prop where
  inside : s.callers s.threadId ≠ .outside → s.phase ≠ .stopped ∧ s.phase.userCode = true
  written : ∀ (i : Nat) cell pointer, s.queue.cells[i]? = some cell → cell.stage = .written pointer →
    ∃ f, pointer = some f ∧ s.callers cell.owner = .released f
  ring : s.wakeupFd = 0 → s.phase.ringDrained = true → ∀ f, s.ringFunctors.head? = some f → s.inCall f
  pending : s.wakeupFd = 0 → s.phase.pendingDrained = true → ∀ f ∈ s.pendingFunctors, s.inCall f

theorem Awake.initial (threadId : ι) (mapped : Bool) : Awake (State.initial threadId mapped) where
  inside := by intro away; exact absurd rfl away
  written := by intro i cell pointer present; simp [State.initial, Mpsc.State.initial] at present
  ring := by
    intro _ _ f member
    simp [State.ringFunctors, State.initial, Mpsc.State.initial] at member
  pending := by intro _ _ f member; simp [State.initial] at member

theorem signal_pos (counter : Nat) : signal counter ≠ 0 := by
  unfold signal
  split <;> omega

theorem Inv.ring_head (inv : Inv s) {f : Functor ι} (member : s.ringFunctors.head? = some f) :
    s.functorAt s.front = some f := by
  have bound := inv.front_le
  rcases Nat.lt_or_eq_of_le bound with inside | empty
  · obtain ⟨g, entry⟩ := inv.entries _ _ (List.getElem?_eq_getElem inside)
    have first : s.functorAt s.front = some g := by
      simp only [State.functorAt, List.getElem?_eq_getElem inside, Option.bind_some, entry]
    have count : s.queue.cells.length - s.front = (s.queue.cells.length - (s.front + 1)) + 1 := by omega
    rw [State.ringFunctors, count, List.range'_succ, List.filterMap_cons_some first, List.head?_cons] at member
    rw [first, member]
  · rw [State.ringFunctors, empty] at member
    simp at member

theorem Awake.open_inCall (awake : Awake s) (inv : Inv s) {i : Nat}
    {cell : Mpsc.Cell ι (Option (Functor ι))} (present : s.queue.cells[i]? = some cell)
    (opened : cell.stage.Open) {f : Functor ι} (functor : s.cellFunctor cell = some f) : s.inCall f := by
  unfold State.cellFunctor at functor
  cases stage : cell.stage with
  | reserved =>
    rw [stage] at functor
    cases place : s.callers cell.owner <;> simp only [place, Caller.held, reduceCtorEq] at functor
    cases functor
    rw [State.inCall, (inv.holding place).1, place]
    rfl
  | written pointer =>
    rw [stage] at functor
    obtain ⟨g, rfl, released⟩ := awake.written i cell pointer present stage
    cases functor
    have caller := inv.callers cell.owner
    rw [released] at caller
    rw [State.inCall, caller.1, released]
    rfl
  | committed pointer id => rw [stage] at opened; exact opened.elim
  | retired pointer => rw [stage] at opened; exact opened.elim

theorem Awake.written_kept (awake : Awake s) (inv : Inv s) {thread : ι}
    (cells : ∀ (i : Nat) cell pointer, t.queue.cells[i]? = some cell → cell.stage = .written pointer →
      s.queue.cells[i]? = some cell)
    (callers : ∀ other, other ≠ thread → t.callers other = s.callers other)
    (away : ∀ node, s.queue.producers thread ≠ .written node) (i : Nat)
    (cell : Mpsc.Cell ι (Option (Functor ι))) (pointer : Option (Functor ι))
    (present : t.queue.cells[i]? = some cell) (stage : cell.stage = .written pointer) :
    ∃ f, pointer = some f ∧ t.callers cell.owner = .released f := by
  have before := cells i cell pointer present stage
  have other : cell.owner ≠ thread := by
    intro same
    have owner := (inv.written_owner before stage).1
    rw [same] at owner
    exact away _ owner
  rw [callers _ other]
  exact awake.written i cell pointer before stage

theorem Awake.queueing (awake : Awake s) {action : Action ι} (calls : action.ofCaller = true)
    (effect : Effect s t action) (phase : t.phase = s.phase) (counter : t.wakeupFd = s.wakeupFd)
    (inside : t.callers t.threadId ≠ .outside → t.phase ≠ .stopped ∧ t.phase.userCode = true)
    (written : ∀ (i : Nat) cell pointer, t.queue.cells[i]? = some cell → cell.stage = .written pointer →
      ∃ f, pointer = some f ∧ t.callers cell.owner = .released f)
    (held : ∀ thread f, s.callers thread = .holding f → f.caller = thread)
    (kept : ∀ f, s.inCall f → t.inCall f) : Awake t := by
  have own : ∀ thread f, s.callers thread = .holding f → t.inCall f := by
    intro thread f holding
    apply kept
    rw [State.inCall, held thread f holding, holding]
    rfl
  refine ⟨inside, written, ?_, ?_⟩
  · rw [counter, phase]
    intro zero drained f member
    have before := awake.ring zero drained
    cases effect with
    | still still =>
      rw [still.ring] at member
      exact kept f (before f member)
    | @reserved thread g holding _ _ ring _ =>
      rw [ring, List.head?_append] at member
      cases first : s.ringFunctors.head? with
      | none =>
        rw [first] at member
        cases member
        exact own thread _ holding
      | some h =>
        rw [first] at member
        cases member
        exact kept _ (before _ first)
    | pushed g holding _ _ ring _ =>
      rw [ring] at member
      exact kept f (before f member)
    | taken => cases calls
    | swapped => cases calls
  · rw [counter, phase]
    intro zero drained f member
    have before := awake.pending zero drained
    cases effect with
    | still still =>
      rw [still.pending] at member
      exact kept f (before f member)
    | reserved g holding _ _ _ pending =>
      rw [pending] at member
      exact kept f (before f member)
    | @pushed thread g holding _ _ _ pending =>
      rw [pending] at member
      rcases List.mem_append.mp member with old | new
      · exact kept f (before f old)
      · rw [List.mem_singleton.mp new]
        exact own thread g holding
    | taken => cases calls
    | swapped => cases calls

section Steps

variable [DecidableEq ι] {thread : ι}

theorem inCall_update {place : Caller ι} (callers : t.callers = Function.update s.callers thread place)
    (passing : (s.callers thread).passing = none ∨ (s.callers thread).passing = place.passing)
    (f : Functor ι) (inCall : s.inCall f) : t.inCall f := by
  unfold State.inCall at inCall ⊢
  rw [callers]
  by_cases same : f.caller = thread
  · rw [same] at inCall ⊢
    rw [Function.update_self]
    rcases passing with none | equal
    · rw [none] at inCall
      cases inCall
    · rw [← equal]
      exact inCall
  · rw [Function.update_of_ne same]
    exact inCall

theorem Awake.inside_update (awake : Awake s) {place : Caller ι}
    (callers : t.callers = Function.update s.callers thread place) (threadId : t.threadId = s.threadId)
    (phase : t.phase = s.phase)
    (own : thread = s.threadId → s.phase ≠ .stopped ∧ s.phase.userCode = true) :
    t.callers t.threadId ≠ .outside → t.phase ≠ .stopped ∧ t.phase.userCode = true := by
  rw [callers, threadId, phase]
  by_cases same : thread = s.threadId
  · exact fun _ => own same
  · rw [Function.update_of_ne (Ne.symm same)]
    exact awake.inside

theorem Awake.reserving (awake : Awake s) (inv : Inv s) (access : Mpsc.Action ι (Option (Functor ι)))
    {action : Action ι} (calls : action.ofCaller = true) (effect : Effect s t action)
    (own : access.reserves thread) (taken : s.reserving thread access = some t) : Awake t := by
  obtain ⟨f, q, held, valid, ran, rfl⟩ := reserving_eq taken
  have cells : ∀ (i : Nat) cell pointer, q.cells[i]? = some cell → cell.stage = .written pointer →
      s.queue.cells[i]? = some cell := by
    intro i cell pointer present stage
    rcases Mpsc.reserve_cases (inv.backed.inv valid) own ran with quiet | ⟨h, node, _, _, rfl⟩
    · rw [← quiet.cells]
      exact present
    · by_cases inside : i < s.queue.cells.length
      · rw [← List.getElem?_append_left inside]
        exact present
      · simp only [Mpsc.reserve, List.getElem?_append_right (Nat.le_of_not_lt inside)] at present
        have new := List.mem_of_getElem? present
        simp only [List.mem_singleton] at new
        subst new
        cases stage
  exact awake.queueing calls effect rfl rfl awake.inside
    (awake.written_kept inv cells (fun _ _ => rfl) (inv.holding held).2.2)
    (fun _ _ holding => (inv.holding holding).1) (fun _ inCall => inCall)

theorem Awake.written_store (awake : Awake s) (inv : Inv s) {f : Functor ι} {node : Nat}
    (reserved : s.queue.producers thread = .reserved node)
    (cells : t.queue.cells =
      s.queue.cells.modify (s.queue.ticket thread) (Mpsc.Cell.progress (Mpsc.Stage.write (some f))))
    (callers : t.callers = Function.update s.callers thread (.released f)) (i : Nat)
    (cell : Mpsc.Cell ι (Option (Functor ι))) (pointer : Option (Functor ι))
    (present : t.queue.cells[i]? = some cell) (stage : cell.stage = .written pointer) :
    ∃ g, pointer = some g ∧ t.callers cell.owner = .released g := by
  rw [cells] at present
  rw [callers]
  rcases Mpsc.progress_cases present with ⟨_, before⟩ | ⟨_, own, before, rfl⟩
  · have other : cell.owner ≠ thread := by
      intro same
      have owner := (inv.written_owner before stage).1
      rw [same, reserved] at owner
      cases owner
    rw [Function.update_of_ne other]
    exact awake.written i cell pointer before stage
  · have at_ := (inv.queue thread (by simp [reserved])).producers thread
    rw [reserved] at at_
    change s.queue.cells[s.queue.ticket thread]? = some _ at at_
    rw [at_] at before
    cases before
    cases stage
    exact ⟨f, rfl, Function.update_self _ _ _⟩

theorem Awake.written_commit (awake : Awake s) (inv : Inv s) {node : Nat} {id : BitVec 32}
    {place : Caller ι} (written : s.queue.producers thread = .written node)
    (cells : t.queue.cells =
      s.queue.cells.modify (s.queue.ticket thread) (Mpsc.Cell.progress (Mpsc.Stage.commit id)))
    (callers : t.callers = Function.update s.callers thread place) (i : Nat)
    (cell : Mpsc.Cell ι (Option (Functor ι))) (pointer : Option (Functor ι))
    (present : t.queue.cells[i]? = some cell) (stage : cell.stage = .written pointer) :
    ∃ g, pointer = some g ∧ t.callers cell.owner = .released g := by
  rw [cells] at present
  rw [callers]
  rcases Mpsc.progress_cases present with ⟨apart, before⟩ | ⟨_, own, before, rfl⟩
  · have other : cell.owner ≠ thread := by
      intro same
      have ticket := (inv.written_owner before stage).2
      rw [same] at ticket
      exact apart ticket.symm
    rw [Function.update_of_ne other]
    exact awake.written i cell pointer before stage
  · have at_ := (inv.queue thread (by simp [written])).producers thread
    rw [written] at at_
    obtain ⟨payload, at_⟩ := at_
    rw [at_] at before
    cases before
    cases stage

/-- A call that returns: it has written the counter, or runs in a handler and the queues are still to be
    drained in this turn of the loop. -/
theorem Awake.returning (awake : Awake s) (inv : Inv s) (idle : s.queue.producers thread = .idle)
    (callers : t.callers = Function.update s.callers thread .outside) (threadId : t.threadId = s.threadId)
    (phase : t.phase = s.phase) (cells : t.queue.cells = s.queue.cells)
    (woken : t.wakeupFd ≠ 0 ∨ s.phase.ringDrained = false) : Awake t := by
  refine ⟨?_, ?_, ?_, ?_⟩
  · rw [callers, threadId, phase]
    by_cases same : thread = s.threadId
    · rw [same, Function.update_self]
      exact fun away => absurd rfl away
    · rw [Function.update_of_ne (Ne.symm same)]
      exact awake.inside
  · apply awake.written_kept inv
    · intro i cell pointer present _
      rw [← cells]
      exact present
    · intro other different
      rw [callers, Function.update_of_ne different]
    · simp [idle]
  · intro zero drained
    rw [phase] at drained
    rcases woken with nonzero | undrained
    · exact absurd zero nonzero
    · simp [undrained] at drained
  · intro zero drained
    rw [phase] at drained
    rcases woken with nonzero | undrained
    · exact absurd zero nonzero
    · simp [pendingDrained_ring drained] at undrained

theorem Awake.callerStep (awake : Awake s) (inv : Inv s) {action : Action ι} (bounded : Bounded s action)
    (within : InsideLoop s action) (calls : action.ofCaller = true) (taken : step s action = some t) :
    Awake t := by
  have effect := (inv.callerStep bounded calls taken).2
  have holder : ∀ thread f, s.callers thread = .holding f → f.caller = thread :=
    fun _ _ holding => (inv.holding holding).1
  cases step_called calls taken with
  | call may =>
    have idle := inv.outside_idle may.1
    apply awake.queueing rfl effect rfl rfl
    · exact awake.inside_update rfl rfl rfl fun own => ⟨within own, may.2 own⟩
    · exact awake.written_kept inv (fun _ _ _ present _ => present)
        (fun _ other => Function.update_of_ne other _ _) (by simp [idle])
    · exact holder
    · exact inCall_update rfl (.inl (by rw [may.1]; rfl))
  | @loadHead thread _ reserved => exact awake.reserving inv (.loadHead thread) rfl effect rfl reserved
  | @loadTail thread _ reserved => exact awake.reserving inv (.loadTail thread) rfl effect rfl reserved
  | @exchange thread spurious _ reserved =>
    exact awake.reserving inv (.compareExchange thread spurious) rfl effect rfl reserved
  | store held ran =>
    obtain ⟨node, reserved, rfl⟩ := Mpsc.step_store ran
    apply awake.queueing rfl effect rfl rfl
    · exact awake.inside_update rfl rfl rfl fun own => awake.inside (by rw [← own, held]; simp)
    · exact awake.written_store inv reserved rfl rfl
    · exact holder
    · exact inCall_update rfl (.inr (by rw [held]; rfl))
  | commit held ran =>
    obtain ⟨node, written, _, rfl⟩ := Mpsc.step_commit ran
    apply awake.queueing rfl effect rfl rfl
    · exact awake.inside_update rfl rfl rfl fun own => awake.inside (by rw [← own, held]; simp)
    · exact awake.written_commit inv written rfl rfl
    · exact holder
    · exact inCall_update rfl (.inr (by rw [held]; rfl))
  | @push _ _ q held ran =>
    have cells : q.cells = s.queue.cells := by
      split at ran
      · rw [(Mpsc.step_giveUp ran).2]
        rfl
      · cases ran
        rfl
    apply awake.queueing rfl effect rfl rfl
    · exact awake.inside_update rfl rfl rfl fun own => awake.inside (by rw [← own, held]; simp)
    · apply awake.written_kept inv _ (fun _ other => Function.update_of_ne other _ _) (inv.holding held).2.2
      intro i cell pointer present _
      rw [← cells]
      exact present
    · exact holder
    · exact inCall_update rfl (.inr (by rw [held]; rfl))
  | @wake thread _ waking =>
    have caller := inv.callers thread
    rw [waking] at caller
    split
    · exact awake.returning inv caller.2.2 rfl rfl rfl rfl (.inl (signal_pos _))
    · rename_i silent
      obtain ⟨own, calling⟩ := not_or.mp silent
      have user := awake.inside (by rw [← not_not.mp own, waking]; simp)
      have undrained : s.phase.ringDrained = false := by
        have stands := inv.phase
        cases place : s.phase <;> simp only [place, PhaseAt, Phase.userCode, Phase.ringDrained] at stands user ⊢
        · exact absurd rfl user.1
        all_goals simp_all
      exact awake.returning inv caller.2.2 rfl rfl rfl rfl (.inr undrained)
  | @quit thread may =>
    by_cases own : thread = s.threadId
    · rw [if_pos own]
      exact ⟨awake.inside, awake.written, awake.ring, awake.pending⟩
    · rw [if_neg own] at effect ⊢
      apply awake.queueing rfl effect rfl rfl
      · exact awake.inside_update rfl rfl rfl fun same => absurd same own
      · exact awake.written_kept inv (fun _ _ _ present _ => present)
          (fun _ other => Function.update_of_ne other _ _) (by simp [inv.outside_idle may.1])
      · exact holder
      · exact inCall_update rfl (.inl (by rw [may.1]; rfl))
  | @quitWake thread quitting =>
    have caller := inv.callers thread
    rw [quitting] at caller
    exact awake.returning inv caller rfl rfl rfl rfl (.inl (signal_pos _))

omit [DecidableEq ι] in
theorem Awake.draining (awake : Awake s) (outside : s.callers s.threadId = .outside)
    (callers : t.callers = s.callers) (threadId : t.threadId = s.threadId)
    (cells : ∀ (i : Nat) cell pointer, t.queue.cells[i]? = some cell → cell.stage = .written pointer →
      s.queue.cells[i]? = some cell)
    (ring : t.wakeupFd = 0 → t.phase.ringDrained = true → ∀ f, t.ringFunctors.head? = some f → s.inCall f)
    (pending : t.wakeupFd = 0 → t.phase.pendingDrained = true → ∀ f ∈ t.pendingFunctors, s.inCall f) :
    Awake t := by
  have inCall : ∀ f, s.inCall f → t.inCall f := by
    intro f before
    rw [State.inCall, callers]
    exact before
  refine ⟨?_, ?_, ?_, ?_⟩
  · rw [callers, threadId]
    exact fun away => absurd outside away
  · intro i cell pointer present stage
    rw [callers]
    exact awake.written i cell pointer (cells i cell pointer present stage) stage
  · exact fun zero drained f member => inCall f (ring zero drained f member)
  · exact fun zero drained f member => inCall f (pending zero drained f member)

omit [DecidableEq ι] in
theorem Awake.undrained (awake : Awake s) (outside : s.callers s.threadId = .outside)
    (callers : t.callers = s.callers) (threadId : t.threadId = s.threadId)
    (cells : ∀ (i : Nat) cell pointer, t.queue.cells[i]? = some cell → cell.stage = .written pointer →
      s.queue.cells[i]? = some cell)
    (undrained : t.phase.ringDrained = false) : Awake t := by
  apply awake.draining outside callers threadId cells
  · intro _ drained
    simp [undrained] at drained
  · intro _ drained
    simp [pendingDrained_ring drained] at undrained

omit [DecidableEq ι] in
theorem Awake.settled (awake : Awake s) (outside : s.callers s.threadId = .outside) (still : Still s t)
    (callers : t.callers = s.callers) (threadId : t.threadId = s.threadId)
    (cells : t.queue.cells = s.queue.cells) (counter : t.wakeupFd = s.wakeupFd)
    (drained : s.phase.pendingDrained = true) : Awake t := by
  apply awake.draining outside callers threadId
  · intro i cell pointer present _
    rw [← cells]
    exact present
  · rw [counter, still.ring]
    exact fun zero _ => awake.ring zero (pendingDrained_ring drained)
  · rw [counter, still.pending]
    exact fun zero _ => awake.pending zero drained

/-- `peek` returns `nullptr` on an empty ring, or at a reservation whose call has not returned. -/
theorem Awake.peek (awake : Awake s) (inv : Inv s) (outside : s.callers s.threadId = .outside)
    (at_ : s.phase = .draining) (access : Peek) {q : Queue ι}
    (taken : Mpsc.step s.queue access.access = some q) (result : t = s.afterPeek q) : Awake t := by
  obtain ⟨valid, _, _⟩ := inv.at_phase at_
  obtain ⟨next, still⟩ := inv.peek access at_ taken result
  obtain ⟨place, rfl, _, ended⟩ := Mpsc.peek_cases (inv.backed.inv valid) access.looks taken
  by_cases idle : place = .idle
  · subst idle
    simp only [State.afterPeek] at result
    apply awake.draining outside (by rw [result]) (by rw [result])
    · intro i cell pointer present _
      rw [result] at present
      exact present
    · intro _ _ f member
      rw [still.ring] at member
      have first := inv.ring_head member
      have front : s.front = s.queue.popped := by rw [State.front, at_]; rfl
      rw [front] at first
      rcases ended rfl with empty | ⟨cell, present, opened⟩
      · simp [State.functorAt, empty] at first
      · simp only [State.functorAt, present, Option.bind_some] at first
        exact awake.open_inCall inv present opened first
    · intro _ drained
      rw [result] at drained
      cases drained
  · have stays : t = { s with queue := { s.queue with consumer := place } } := by
      rw [result]
      cases place <;> simp_all [State.afterPeek]
    apply awake.undrained outside (by rw [stays]) (by rw [stays])
    · intro i cell pointer present _
      rw [stays] at present
      exact present
    · rw [stays]
      simp only [at_]
      rfl

theorem Awake.loopStep (awake : Awake s) (inv : Inv s) (outside : s.callers s.threadId = .outside)
    {action : Action ι} (taken : loopStep s action s.phase = some t) : Awake t := by
  have effect := (inv.loopStep taken).2
  cases place : s.phase with
  | stopped =>
    cases action <;> simp only [place, Loop.loopStep, reduceCtorEq] at taken
    split at taken <;> cases taken
    cases effect with
    | still still => exact awake.settled outside still rfl rfl rfl rfl (by rw [place]; rfl)
  | polling =>
    cases action <;> simp only [place, Loop.loopStep, reduceCtorEq] at taken
    split at taken <;> cases taken
    exact awake.undrained outside rfl rfl (fun _ _ _ present _ => present) rfl
  | dispatching rest =>
    rcases rest with _ | ⟨event, rest⟩
    · cases action <;> simp only [place, Loop.loopStep, reduceCtorEq] at taken
      by_cases valid : s.queue.buffer.valid = true
      · rw [if_pos valid] at taken
        cases taken
        exact awake.undrained outside rfl rfl (fun _ _ _ present _ => present) rfl
      · have empty : s.queue.cells = [] := by
          rcases inv.backed with initial | queue
          · rw [initial]
            rfl
          · exact absurd queue.ring.valid valid
        rw [if_neg valid] at taken
        cases taken
        refine awake.draining outside rfl rfl (fun _ _ _ present _ => present) ?_ ?_
        · intro _ _ f member
          simp [State.ringFunctors, empty] at member
        · intro _ drained
          cases drained
    · cases event <;> cases action <;> simp only [place, Loop.loopStep, reduceCtorEq] at taken <;>
        cases taken <;> exact awake.undrained outside rfl rfl (fun _ _ _ present _ => present) rfl
  | handling rest =>
    cases action <;> simp only [place, Loop.loopStep, reduceCtorEq] at taken
    cases taken
    exact awake.undrained outside rfl rfl (fun _ _ _ present _ => present) rfl
  | draining =>
    cases action <;> simp only [place, Loop.loopStep, reduceCtorEq] at taken
    case peek access =>
      obtain ⟨q, ran, result⟩ := Option.map_eq_some_iff.mp taken
      exact awake.peek inv outside place access ran result.symm
    case take =>
      obtain ⟨q, ran, rfl⟩ := Option.map_eq_some_iff.mp taken
      obtain ⟨node, _, rfl⟩ := Mpsc.step_read ran
      simp only [State.afterRead]
      split <;> exact awake.undrained outside rfl rfl (fun _ _ _ present _ => present) rfl
  | running f =>
    cases action <;> simp only [place, Loop.loopStep, reduceCtorEq] at taken
    cases taken
    exact awake.undrained outside rfl rfl (fun _ _ _ present _ => present) rfl
  | ran =>
    cases action <;> simp only [place, Loop.loopStep, reduceCtorEq] at taken
    case clear =>
      obtain ⟨q, ran, rfl⟩ := Option.map_eq_some_iff.mp taken
      obtain ⟨node, payload, reading, rfl⟩ := Mpsc.step_clear ran
      refine awake.undrained outside rfl rfl ?_ rfl
      intro i cell pointer present stage
      rcases Mpsc.progress_cases present with ⟨_, before⟩ | ⟨rfl, own, before, rfl⟩
      · exact before
      · obtain ⟨owner, place, progress⟩ := own
        cases progress <;> simp only [Mpsc.Cell.progress, Mpsc.Stage.retire, reduceCtorEq] at stage
        exact before
    case advance =>
      obtain ⟨q, ran, rfl⟩ := Option.map_eq_some_iff.mp taken
      obtain ⟨_, _, _, rfl⟩ := Mpsc.step_advance ran
      exact awake.undrained outside rfl rfl (fun _ _ _ present _ => present) rfl
  | swapping =>
    cases action <;> simp only [place, Loop.loopStep, reduceCtorEq] at taken
    cases taken
    cases effect with
    | still still =>
      refine awake.draining outside rfl rfl (fun _ _ _ present _ => present) ?_ ?_
      · rw [still.ring]
        exact fun zero _ => awake.ring zero (by rw [place]; rfl)
      · simp
    | swapped settled ring pending =>
      refine awake.draining outside rfl rfl (fun _ _ _ present _ => present) ?_ ?_
      · rw [ring]
        exact fun zero _ => awake.ring zero (by rw [place]; rfl)
      · simp
  | serving rest =>
    rcases rest with _ | ⟨f, rest⟩
    · cases action <;> simp only [place, Loop.loopStep, reduceCtorEq] at taken
      cases taken
      cases effect with
      | still still => exact awake.settled outside still rfl rfl rfl rfl (by rw [place]; rfl)
    · cases action <;> simp only [place, Loop.loopStep, reduceCtorEq] at taken
      cases taken
      cases effect with
      | still still => exact awake.settled outside still rfl rfl rfl rfl (by rw [place]; rfl)
  | executing f rest =>
    cases action <;> simp only [place, Loop.loopStep, reduceCtorEq] at taken
    cases taken
    cases effect with
    | still still => exact awake.settled outside still rfl rfl rfl rfl (by rw [place]; rfl)

theorem Awake.step (awake : Awake s) (inv : Inv s) {action : Action ι} (bounded : Bounded s action)
    (within : InsideLoop s action) (taken : step s action = some t) : Awake t := by
  cases kind : action.ofCaller with
  | true => exact awake.callerStep inv bounded within kind taken
  | false =>
    obtain ⟨outside, moved⟩ := step_loop kind taken
    exact awake.loopStep inv outside moved

instance (s : State ι) (action : Action ι) : Decidable (InsideLoop s action) :=
  match action with
  | .call t => inferInstanceAs (Decidable (t = s.threadId → s.phase ≠ .stopped))
  | .loadHead _ | .loadTail _ | .exchange _ _ | .store _ | .commit _ | .push _ | .wake _ | .quit _
  | .quitWake _ | .enter | .poll _ | .dispatch | .handled | .drain | .peek _ | .take | .done | .clear
  | .advance | .swap | .serve | .served | .leave => isTrue trivial

/-- While the loop sleeps with the counter at zero, every functor in the ring stands behind, or is, one whose
    call has not returned, and every functor in `pendingFunctors_` is one whose call has not returned; once
    all calls have returned, both queues are empty. -/
theorem no_lost_wakeup {threadId : ι} {mapped : Bool}
    (run : Reaches Loop.step (fun s a => Bounded s a ∧ InsideLoop s a) (State.initial threadId mapped) s)
    (polling : s.phase = .polling) (zero : s.wakeupFd = 0) :
    (∀ (i : Nat) f, s.ringFunctors[i]? = some f →
      ∃ j g, j ≤ i ∧ s.ringFunctors[j]? = some g ∧ s.inCall g) ∧
    (∀ f ∈ s.pendingFunctors, s.inCall f) ∧
    ((∀ t, s.callers t = .outside) → s.ringFunctors = [] ∧ s.pendingFunctors = []) := by
  have both : Inv s ∧ Awake s := by
    apply run.keeps ⟨Inv.initial threadId mapped, Awake.initial threadId mapped⟩
    intro before action after held admitted taken
    exact ⟨(held.1.step admitted.1 taken).1, held.2.step held.1 admitted.1 admitted.2 taken⟩
  have ring := both.2.ring zero (by rw [polling]; rfl)
  have pending := both.2.pending zero (by rw [polling]; rfl)
  refine ⟨?_, pending, ?_⟩
  · intro i f present
    have inside := (List.getElem?_eq_some_iff.mp present).1
    have first : s.ringFunctors.head? = some (s.ringFunctors[0]) := by
      rw [List.head?_eq_getElem?, List.getElem?_eq_getElem]
    exact ⟨0, _, Nat.zero_le i, by rw [← List.head?_eq_getElem?]; exact first, ring _ first⟩
  · intro outside
    have nobody : ∀ f, ¬ s.inCall f := by
      intro f inCall
      rw [State.inCall, outside] at inCall
      cases inCall
    constructor
    · apply List.head?_eq_none_iff.mp
      exact Option.eq_none_iff_forall_not_mem.mpr fun f member => nobody f (ring f member)
    · exact List.eq_nil_iff_forall_not_mem.mpr fun f member => nobody f (pending f member)

theorem no_lost_wakeup_reserved : ∃ s : State (Fin 2), s.phase = .polling ∧ s.wakeupFd = 0 ∧
    s.ringFunctors = [⟨1, 0⟩] ∧
    (∀ (i : Nat) f, s.ringFunctors[i]? = some f →
      ∃ j g, j ≤ i ∧ s.ringFunctors[j]? = some g ∧ s.inCall g) ∧
    (∀ f ∈ s.pendingFunctors, s.inCall f) ∧
    ((∀ t, s.callers t = .outside) → s.ringFunctors = [] ∧ s.pendingFunctors = []) := by
  have ran : (exec (guarded Loop.step fun s a => Bounded s a ∧ InsideLoop s a)
      (State.initial (0 : Fin 2) true) [.enter, .call 1, .loadHead 1, .loadTail 1, .exchange 1 false]).map
        (fun s => (s.phase, s.wakeupFd, s.ringFunctors)) = some (.polling, 0, [⟨1, 0⟩]) := by decide
  obtain ⟨s, reached, seen⟩ := Option.map_eq_some_iff.mp ran
  simp only [Prod.mk.injEq] at seen
  obtain ⟨polling, zero, ring⟩ := seen
  exact ⟨s, polling, zero, ring, no_lost_wakeup (exec_guarded_reaches reached) polling zero⟩

/-- A functor can wait outside the ring while the loop sleeps: the fallback has pushed it and its call is
    about to write the counter. -/
theorem fallback_before_wakeup : ∃ s : State (Fin 2),
    Reaches Loop.step (fun s a => Bounded s a ∧ InsideLoop s a) (State.initial 0 false) s ∧
    s.phase = .polling ∧ s.wakeupFd = 0 ∧ s.pendingFunctors = [⟨1, 0⟩] ∧ s.ringFunctors = [] := by
  have ran : (exec (guarded Loop.step fun s a => Bounded s a ∧ InsideLoop s a)
      (State.initial (0 : Fin 2) false) [.enter, .call 1, .push 1]).map
        (fun s => (s.phase, s.wakeupFd, s.pendingFunctors, s.ringFunctors)) =
          some (.polling, 0, [⟨1, 0⟩], []) := by decide
  obtain ⟨s, reached, seen⟩ := Option.map_eq_some_iff.mp ran
  simp only [Prod.mk.injEq] at seen
  exact ⟨s, exec_guarded_reaches reached, seen⟩

end Steps

end Hvnetpp.Loop
