import Hvnetpp.Loop.Traffic
import Hvnetpp.Mpsc.Progress

namespace Hvnetpp.Loop

open Machine

variable {ι : Type} {s t u : State ι}

/-- Inside `doPendingFunctors`. -/
def Phase.calling : Phase ι → Bool
  | .draining | .running _ | .ran | .swapping | .serving _ | .executing _ _ => true
  | _ => false

/-- Inside `doPendingFunctors`, before the vector is swapped out. -/
def Phase.unswapped : Phase ι → Bool
  | .draining | .running _ | .ran | .swapping => true
  | _ => false

/-- Inside `doPendingFunctors`, after the loop over the ring. -/
def Phase.past : Phase ι → Bool
  | .swapping | .serving _ | .executing _ _ => true
  | _ => false

/-- `peek` finds nothing: no reservation is outstanding, or the first of them is not committed. -/
def Exhausted (q : Queue ι) : Prop :=
  q.popped = q.cells.length ∨ ∃ cell, q.cells[q.popped]? = some cell ∧ cell.stage.Open

/-- The steps of the loop thread, each with the phase it starts from and what it leaves. -/
inductive Turn [DecidableEq ι] (s : State ι) : Action ι → State ι → Prop where
  | enter (place : s.phase = .stopped) (unset : s.quit = false) : Turn s .enter { s with phase := .polling }
  | poll (batch : List Event) (place : s.phase = .polling) : Turn s (.poll batch) { s with phase := .dispatching batch }
  | wakeup (rest : List Event) (place : s.phase = .dispatching (.wakeup :: rest)) :
      Turn s .dispatch { s with phase := .dispatching rest, wakeupFd := 0 }
  | handle (rest : List Event) (place : s.phase = .dispatching (.other :: rest)) :
      Turn s .dispatch { s with phase := .handling rest }
  | handled (rest : List Event) (place : s.phase = .handling rest) :
      Turn s .handled { s with phase := .dispatching rest }
  | drain (place : s.phase = .dispatching []) :
      Turn s .drain { s with
        callingPendingFunctors := true
        phase := if s.queue.buffer.valid then .draining else .swapping }
  | peek (access : Peek) (q : Queue ι) (place : s.phase = .draining)
      (ran : Mpsc.step s.queue access.access = some q) (found : q.consumer ≠ .idle) :
      Turn s (.peek access) { s with queue := q }
  | exhaust (access : Peek) (q : Queue ι) (place : s.phase = .draining)
      (ran : Mpsc.step s.queue access.access = some q) (idle : q.consumer = .idle) :
      Turn s (.peek access) { s with queue := q, phase := .swapping }
  | take (q : Queue ι) (place : s.phase = .draining) (ran : Mpsc.step s.queue .read = some q) :
      Turn s .take (s.afterRead q)
  | done (f : Functor ι) (place : s.phase = .running f) :
      Turn s .done { s with phase := .ran, finished := s.finished ++ [f] }
  | clear (q : Queue ι) (place : s.phase = .ran) (ran : Mpsc.step s.queue .clear = some q) :
      Turn s .clear { s with queue := q, phase := .ran }
  | advance (q : Queue ι) (place : s.phase = .ran) (ran : Mpsc.step s.queue .advance = some q) :
      Turn s .advance { s with queue := q, phase := .draining }
  | swap (place : s.phase = .swapping) :
      Turn s .swap { s with phase := .serving s.pendingFunctors, pendingFunctors := [] }
  | serve (f : Functor ι) (rest : List (Functor ι)) (place : s.phase = .serving (f :: rest)) :
      Turn s .serve { s with phase := .executing f rest, started := s.started ++ [f] }
  | served (f : Functor ι) (rest : List (Functor ι)) (place : s.phase = .executing f rest) :
      Turn s .served { s with phase := .serving rest, finished := s.finished ++ [f] }
  | leave (place : s.phase = .serving []) :
      Turn s .leave { s with
        callingPendingFunctors := false
        phase := if s.quit then .stopped else .polling }

theorem loopStep_turn [DecidableEq ι] {action : Action ι} (taken : loopStep s action s.phase = some t) :
    Turn s action t := by
  cases place : s.phase with
  | stopped =>
    cases action <;> simp only [place, loopStep, reduceCtorEq] at taken
    split at taken <;> cases taken
    rename_i unset
    exact .enter place (Bool.eq_false_iff.mpr unset)
  | polling =>
    cases action <;> simp only [place, loopStep, reduceCtorEq] at taken
    split at taken <;> cases taken
    exact .poll _ place
  | dispatching rest =>
    rcases rest with _ | ⟨event, rest⟩
    · cases action <;> simp only [place, loopStep, reduceCtorEq] at taken
      cases taken
      exact .drain place
    · cases event <;> cases action <;> simp only [place, loopStep, reduceCtorEq] at taken <;> cases taken
      · exact .wakeup rest place
      · exact .handle rest place
  | handling rest =>
    cases action <;> simp only [place, loopStep, reduceCtorEq] at taken
    cases taken
    exact .handled rest place
  | draining =>
    cases action <;> simp only [place, loopStep, reduceCtorEq] at taken
    case peek access =>
      obtain ⟨q, ran, rfl⟩ := Option.map_eq_some_iff.mp taken
      unfold State.afterPeek
      split
      · rename_i idle
        exact .exhaust access q place ran idle
      · rename_i found
        exact .peek access q place ran found
    case take =>
      obtain ⟨q, ran, rfl⟩ := Option.map_eq_some_iff.mp taken
      exact .take q place ran
  | running f =>
    cases action <;> simp only [place, loopStep, reduceCtorEq] at taken
    cases taken
    exact .done f place
  | ran =>
    cases action <;> simp only [place, loopStep, reduceCtorEq] at taken
    case clear =>
      obtain ⟨q, ran, rfl⟩ := Option.map_eq_some_iff.mp taken
      exact .clear q place ran
    case advance =>
      obtain ⟨q, ran, rfl⟩ := Option.map_eq_some_iff.mp taken
      exact .advance q place ran
  | swapping =>
    cases action <;> simp only [place, loopStep, reduceCtorEq] at taken
    cases taken
    exact .swap place
  | serving rest =>
    rcases rest with _ | ⟨f, rest⟩ <;> cases action <;> simp only [place, loopStep, reduceCtorEq] at taken <;>
      cases taken
    · exact .leave place
    · exact .serve f rest place
  | executing f rest =>
    cases action <;> simp only [place, loopStep, reduceCtorEq] at taken
    cases taken
    exact .served f rest place

/-- What one step does to the place of the loop thread. -/
structure Moves (s t : State ι) (action : Action ι) : Prop where
  started : s.started <+: t.started
  front : action ≠ .take ∧ t.front = s.front ∨ action = .take ∧ t.front = s.front + 1 ∧ s.phase.rest = [] ∧
    t.phase.rest = [] ∧ ∃ f, t.started = s.started ++ [f]
  calling : s.phase.calling = true → action ≠ .leave → t.phase.calling = true
  unswapped : s.phase.unswapped = true → action ≠ .swap → t.phase.unswapped = true
  past : s.phase.calling = true → t.phase.past = true → s.phase.past = true ∨ s.phase.ahead = 0 ∧ Exhausted s.queue

/-- The loop thread stays where it is. -/
structure Stands (s t : State ι) : Prop where
  phase : t.phase = s.phase
  started : t.started = s.started
  finished : t.finished = s.finished
  calls : ∀ thread, s.calls thread ≤ t.calls thread
  consumed : t.queue.consumed = s.queue.consumed

theorem Stands.moves (stands : Stands s t) {action : Action ι} (other : action ≠ .take) : Moves s t action where
  started := stands.started.symm ▸ List.prefix_rfl
  front := by
    refine .inl ⟨other, ?_⟩
    rw [State.front, State.front, stands.phase, Mpsc.State.popped, stands.consumed, ← Mpsc.State.popped]
  calling held _ := by rw [stands.phase]; exact held
  unswapped held _ := by rw [stands.phase]; exact held
  past _ held := by
    left
    rw [← stands.phase]
    exact held

/-- A step inside one phase of the loop, with no access to the queue. -/
theorem Moves.turns {action : Action ι} (other : action ≠ .take) {before after : Phase ι} (leaves : s.phase = before)
    (arrives : t.phase = after) (queue : t.queue = s.queue) (started : s.started <+: t.started) (ahead : after.ahead = before.ahead)
    (calling : before.calling = true → action ≠ .leave → after.calling = true)
    (unswapped : before.unswapped = true → action ≠ .swap → after.unswapped = true)
    (past : before.calling = true → after.past = true → before.past = true) : Moves s t action where
  started := started
  front := by
    refine .inl ⟨other, ?_⟩
    rw [State.front, State.front, queue, leaves, arrives, ahead]
  calling := by rw [leaves, arrives]; exact calling
  unswapped := by rw [leaves, arrives]; exact unswapped
  past := by
    rw [leaves, arrives]
    exact fun held now => .inl (past held now)

theorem afterRead_queue (s : State ι) (q : Queue ι) : (s.afterRead q).queue = q := by
  unfold State.afterRead
  split <;> rfl

/-- The node that `peek` returns holds a functor. -/
theorem Inv.peeked_functor (inv : Inv s) (at_ : s.phase = .draining) {node : Nat}
    (peeked : s.queue.consumer = .peeked node) : ∃ f, (s.queue.buffer.data node).data = some f := by
  obtain ⟨valid, _, _⟩ := inv.at_phase at_
  have queue := inv.backed.inv valid
  have stands := queue.consumer
  rw [peeked] at stands
  obtain ⟨owner, pointer, id, present⟩ := stands
  obtain ⟨f, entry⟩ := inv.entries _ _ present
  simp only [State.cellFunctor] at entry
  refine ⟨f, ?_⟩
  rw [queue.ring.node_eq present (Nat.le_refl _), entry]
  rfl

variable [DecidableEq ι]

theorem Stands.reserving (inv : Inv s) {thread : ι} (access : Mpsc.Action ι (Option (Functor ι)))
    (own : access.reserves thread) (taken : s.reserving thread access = some t) : Stands s t := by
  obtain ⟨f, q, _, valid, ran, rfl⟩ := reserving_eq taken
  rcases Mpsc.reserve_cases (inv.backed.inv valid) own ran with quiet | ⟨h, node, _, _, rfl⟩
  · exact ⟨rfl, rfl, rfl, fun _ => Nat.le_refl _, quiet.consumed⟩
  · exact ⟨rfl, rfl, rfl, fun _ => Nat.le_refl _, rfl⟩

theorem Stands.callerStep (inv : Inv s) {action : Action ι} (calls : action.ofCaller = true)
    (taken : step s action = some t) : Stands s t := by
  cases step_called calls taken with
  | @call thread =>
    refine ⟨rfl, rfl, rfl, fun other => ?_, rfl⟩
    by_cases same : other = thread
    · dsimp only
      rw [same, Function.update_self]
      exact Nat.le_succ _
    · exact Nat.le_of_eq (Function.update_of_ne same _ _).symm
  | @loadHead thread _ reserved => exact .reserving inv (.loadHead thread) rfl reserved
  | @loadTail thread _ reserved => exact .reserving inv (.loadTail thread) rfl reserved
  | @exchange thread spurious _ reserved => exact .reserving inv (.compareExchange thread spurious) rfl reserved
  | store _ ran =>
    obtain ⟨node, _, rfl⟩ := Mpsc.step_store ran
    exact ⟨rfl, rfl, rfl, fun _ => Nat.le_refl _, rfl⟩
  | commit _ ran =>
    obtain ⟨node, _, _, rfl⟩ := Mpsc.step_commit ran
    exact ⟨rfl, rfl, rfl, fun _ => Nat.le_refl _, rfl⟩
  | push _ ran =>
    split at ran
    · obtain ⟨_, rfl⟩ := Mpsc.step_giveUp ran
      exact ⟨rfl, rfl, rfl, fun _ => Nat.le_refl _, rfl⟩
    · cases ran
      exact ⟨rfl, rfl, rfl, fun _ => Nat.le_refl _, rfl⟩
  | wake | quit => split <;> exact ⟨rfl, rfl, rfl, fun _ => Nat.le_refl _, rfl⟩
  | quitWake => exact ⟨rfl, rfl, rfl, fun _ => Nat.le_refl _, rfl⟩

theorem Moves.exhaust (inv : Inv s) (place : s.phase = .draining) (access : Peek) {q : Queue ι}
    (ran : Mpsc.step s.queue access.access = some q) (idle : q.consumer = .idle) :
    Moves s { s with queue := q, phase := .swapping } (.peek access) := by
  obtain ⟨valid, _, _⟩ := inv.at_phase place
  obtain ⟨at_, rfl, _, ended⟩ := Mpsc.peek_cases (inv.backed.inv valid) access.looks ran
  have none : s.phase.ahead = 0 := by rw [place]; rfl
  refine ⟨List.prefix_rfl, .inl ⟨by simp, ?_⟩, fun _ _ => rfl, fun _ _ => rfl, fun _ _ => .inr ⟨none, ended idle⟩⟩
  rw [State.front, State.front, none]
  rfl

theorem Moves.take (inv : Inv s) (place : s.phase = .draining) {q : Queue ι}
    (ran : Mpsc.step s.queue .read = some q) : Moves s (s.afterRead q) .take := by
  obtain ⟨node, peeked, rfl⟩ := Mpsc.step_read ran
  obtain ⟨f, functor⟩ := inv.peeked_functor place peeked
  have front : s.front = s.queue.popped := by rw [State.front, place]; rfl
  have none : s.phase.rest = [] := by rw [place]; rfl
  rw [functor]
  simp only [State.afterRead]
  refine ⟨List.prefix_append _ _, .inr ⟨rfl, ?_, none, rfl, f, rfl⟩, fun _ _ => rfl, fun _ _ => rfl,
    fun _ now => by cases now⟩
  rw [front]
  rfl

theorem Moves.turn (inv : Inv s) {action : Action ι} (turn : Turn s action t) : Moves s t action := by
  cases turn with
  | enter place _ =>
    exact .turns (by simp) place rfl rfl List.prefix_rfl rfl (by simp [Phase.calling]) (by simp [Phase.unswapped])
      (by simp [Phase.calling])
  | poll batch place =>
    exact .turns (by simp) place rfl rfl List.prefix_rfl rfl (by simp [Phase.calling]) (by simp [Phase.unswapped])
      (by simp [Phase.calling])
  | wakeup rest place =>
    exact .turns (by simp) place rfl rfl List.prefix_rfl rfl (by simp [Phase.calling]) (by simp [Phase.unswapped])
      (by simp [Phase.calling])
  | handle rest place =>
    exact .turns (by simp) place rfl rfl List.prefix_rfl rfl (by simp [Phase.calling]) (by simp [Phase.unswapped])
      (by simp [Phase.calling])
  | handled rest place =>
    exact .turns (by simp) place rfl rfl List.prefix_rfl rfl (by simp [Phase.calling]) (by simp [Phase.unswapped])
      (by simp [Phase.calling])
  | drain place =>
    refine .turns (by simp) place rfl rfl List.prefix_rfl ?_ (by simp [Phase.calling]) (by simp [Phase.unswapped])
      (by simp [Phase.calling])
    split <;> rfl
  | peek access q place ran _ =>
    obtain ⟨valid, _, _⟩ := inv.at_phase place
    obtain ⟨at_, rfl, _⟩ := Mpsc.peek_cases (inv.backed.inv valid) access.looks ran
    apply Stands.moves
    · exact ⟨rfl, rfl, rfl, fun _ => Nat.le_refl _, rfl⟩
    · simp
  | exhaust access q place ran idle => exact .exhaust inv place access ran idle
  | take q place ran => exact .take inv place ran
  | done f place =>
    exact .turns (by simp) place rfl rfl List.prefix_rfl rfl (fun _ _ => rfl) (fun _ _ => rfl) (by simp [Phase.past])
  | clear q place ran =>
    obtain ⟨node, payload, _, rfl⟩ := Mpsc.step_clear ran
    apply Stands.moves
    · exact ⟨place.symm, rfl, rfl, fun _ => Nat.le_refl _, rfl⟩
    · simp
  | advance q place ran =>
    obtain ⟨node, payload, _, rfl⟩ := Mpsc.step_advance ran
    -- one more is consumed, and the loop thread no longer holds it
    refine ⟨List.prefix_rfl, .inl ⟨by simp, ?_⟩, fun _ _ => rfl, fun _ _ => rfl, fun _ now => by cases now⟩
    simp [State.front, place, Phase.ahead, Mpsc.State.popped, Mpsc.advance]
  | swap place =>
    exact .turns (by simp) place rfl rfl List.prefix_rfl rfl (fun _ _ => rfl) (fun _ other => absurd rfl other)
      (fun _ _ => rfl)
  | serve f rest place =>
    exact .turns (by simp) place rfl rfl (List.prefix_append _ _) rfl (fun _ _ => rfl) (by simp [Phase.unswapped])
      (fun _ _ => rfl)
  | served f rest place =>
    exact .turns (by simp) place rfl rfl List.prefix_rfl rfl (fun _ _ => rfl) (by simp [Phase.unswapped])
      (fun _ _ => rfl)
  | leave place =>
    refine .turns (by simp) place rfl rfl List.prefix_rfl ?_ (fun _ other => absurd rfl other)
      (by simp [Phase.unswapped]) (fun _ _ => rfl)
    split <;> rfl

theorem Moves.step (inv : Inv s) {action : Action ι} (taken : Loop.step s action = some t) : Moves s t action := by
  cases kind : action.ofCaller with
  | true =>
    apply (Stands.callerStep inv kind taken).moves
    rintro rfl
    cases kind
  | false => exact .turn inv (loopStep_turn (step_loop kind taken).2)

/-- A functor is finished by the step that ends its execution. -/
theorem step_finished (inv : Inv s) {action : Action ι} (taken : step s action = some t) :
    t.finished = s.finished ∨
    (action = .done ∨ action = .served) ∧ ∃ f, s.phase.current = some f ∧ t.finished = s.finished ++ [f] := by
  cases kind : action.ofCaller with
  | true => exact .inl (Stands.callerStep inv kind taken).finished
  | false =>
    cases loopStep_turn (step_loop kind taken).2 with
    | done f place => exact .inr ⟨.inl rfl, f, by rw [place]; rfl, rfl⟩
    | served f rest place => exact .inr ⟨.inr rfl, f, by rw [place]; rfl, rfl⟩
    | take q place ran =>
      left
      unfold State.afterRead
      split <;> rfl
    | _ => exact .inl rfl

theorem step_calls (inv : Inv s) {action : Action ι} (taken : step s action = some t) (thread : ι) :
    s.calls thread ≤ t.calls thread := by
  cases kind : action.ofCaller with
  | true => exact (Stands.callerStep inv kind taken).calls thread
  | false =>
    cases loopStep_turn (step_loop kind taken).2 with
    | take q place ran =>
      unfold State.afterRead
      split <;> exact Nat.le_refl _
    | _ => exact Nat.le_refl _

/-- A step makes at most one access to a queue that keeps its invariant. -/
theorem step_queue (inv : Inv s) {action : Action ι} (taken : step s action = some t) :
    t.queue = s.queue ∨ ∃ access, Mpsc.Inv s.queue ∧ Mpsc.step s.queue access = some t.queue := by
  have reserves {thread : ι} {access : Mpsc.Action ι (Option (Functor ι))}
      (taken : s.reserving thread access = some t) :
      t.queue = s.queue ∨ ∃ access, Mpsc.Inv s.queue ∧ Mpsc.step s.queue access = some t.queue := by
    obtain ⟨f, q, _, valid, ran, rfl⟩ := reserving_eq taken
    exact .inr ⟨access, inv.backed.inv valid, ran⟩
  cases kind : action.ofCaller with
  | true =>
    cases step_called kind taken with
    | loadHead reserved => exact reserves reserved
    | loadTail reserved => exact reserves reserved
    | exchange reserved => exact reserves reserved
    | @store thread _ _ _ ran =>
      obtain ⟨node, reserved, _⟩ := Mpsc.step_store ran
      exact .inr ⟨_, inv.queue thread (by simp [reserved]), ran⟩
    | @commit thread _ _ _ ran =>
      obtain ⟨node, written, _⟩ := Mpsc.step_commit ran
      exact .inr ⟨_, inv.queue thread (by simp [written]), ran⟩
    | push _ ran =>
      split at ran
      · rename_i valid
        exact .inr ⟨_, inv.backed.inv valid, ran⟩
      · exact .inl (Option.some.inj ran).symm
    | wake | quit => split <;> exact .inl rfl
    | call | quitWake => exact .inl rfl
  | false =>
    have valid (place : s.phase = .draining ∨ s.phase = .ran) : Mpsc.Inv s.queue := by
      rcases place with place | place
      · exact inv.backed.inv (inv.at_phase place).1
      · exact inv.backed.inv (inv.at_phase place).1
    cases loopStep_turn (step_loop kind taken).2 with
    | peek access q place ran _ => exact .inr ⟨_, valid (.inl place), ran⟩
    | exhaust access q place ran _ => exact .inr ⟨_, valid (.inl place), ran⟩
    | take q place ran =>
      rw [afterRead_queue]
      exact .inr ⟨_, valid (.inl place), ran⟩
    | clear q place ran => exact .inr ⟨_, valid (.inr place), ran⟩
    | advance q place ran => exact .inr ⟨_, valid (.inr place), ran⟩
    | _ => exact .inl rfl

theorem settled_step (inv : Inv s) {n : Nat} (settled : Mpsc.Settled n s.queue) {action : Action ι}
    (taken : step s action = some t) : Mpsc.Settled n t.queue := by
  rcases step_queue inv taken with same | ⟨access, queue, ran⟩
  · rw [same]
    exact settled
  · exact settled.logged (queue.logged ran)

/-- A call of `doPendingFunctors` under way. `ring` and `pending` were queued when it began, `ring` in the first `n`
    reservations, which were all committed. -/
structure Serving (n : Nat) (ring pending : List (Functor ι)) (s : State ι) : Prop where
  calling : s.phase.calling = true
  settled : Mpsc.Settled n s.queue
  ring : ∀ f ∈ ring, f ∈ s.started ∨ ∃ m, s.front + m < n ∧ s.ringFunctors[m]? = some f
  past : s.phase.past = true → n ≤ s.front
  pending : ∀ f ∈ pending, f ∈ s.started ++ s.phase.rest ∨ f ∈ s.pendingFunctors ∧ s.phase.unswapped = true

variable {n : Nat} {ring pending : List (Functor ι)}

theorem step_swap (taken : step s .swap = some t) :
    s.phase = .swapping ∧ t = { s with phase := .serving s.pendingFunctors, pendingFunctors := [] } := by
  cases loopStep_turn (step_loop rfl taken).2 with
  | swap place => exact ⟨place, rfl⟩

theorem Serving.ring_step (serving : Serving n ring pending s) (inv : Inv s) {action : Action ι}
    (bounded : Bounded s action) (taken : Loop.step s action = some t) {f : Functor ι} (member : f ∈ ring) :
    f ∈ t.started ∨ ∃ m, t.front + m < n ∧ t.ringFunctors[m]? = some f := by
  have moves := Moves.step inv taken
  rcases serving.ring f member with done | ⟨m, less, there⟩
  · exact .inl (moves.started.subset done)
  · have effect := (inv.step bounded taken).2
    have inside := (List.getElem?_eq_some_iff.mp there).1
    rcases moves.front with ⟨other, front⟩ | ⟨rfl, front, none, none', g, started⟩
    · -- nothing leaves the ring
      have kept : t.ringFunctors[m]? = some f := by
        cases effect with
        | still still =>
          rw [still.ring]
          exact there
        | reserved g _ _ _ grows _ =>
          rw [grows, List.getElem?_append_left inside]
          exact there
        | pushed g _ _ _ same _ =>
          rw [same]
          exact there
        | taken => exact absurd rfl other
        | swapped _ same _ =>
          rw [same]
          exact there
      exact .inr ⟨m, by omega, kept⟩
    · cases effect with
      | still still =>
        have settled := still.settled
        rw [none, none', started, List.append_nil, List.append_nil] at settled
        have lengths := congrArg List.length settled
        rw [List.length_append, List.length_singleton] at lengths
        omega
      | taken g settled first _ =>
        rw [none, none', List.append_nil, List.append_nil] at settled
        rw [first] at there
        cases m with
        | zero =>
          left
          cases there
          rw [settled]
          exact List.mem_append_right _ List.mem_cons_self
        | succ m =>
          rw [List.getElem?_cons_succ] at there
          exact .inr ⟨m, by omega, there⟩

theorem Serving.pending_step (serving : Serving n ring pending s) (inv : Inv s) {action : Action ι}
    (bounded : Bounded s action) (taken : Loop.step s action = some t) {f : Functor ι} (member : f ∈ pending) :
    f ∈ t.started ++ t.phase.rest ∨ f ∈ t.pendingFunctors ∧ t.phase.unswapped = true := by
  have effect := (inv.step bounded taken).2
  rcases serving.pending f member with settled | ⟨waits, unswapped⟩
  · left
    cases effect with
    | still still =>
      rw [still.settled]
      exact settled
    | reserved _ _ _ same _ _ =>
      rw [same]
      exact settled
    | pushed _ _ _ same _ _ =>
      rw [same]
      exact settled
    | taken _ grows _ _ =>
      rw [grows]
      exact List.mem_append_left _ settled
    | swapped grows _ _ =>
      rw [grows]
      exact List.mem_append_left _ settled
  · by_cases swap : action = .swap
    · subst swap
      obtain ⟨_, rfl⟩ := step_swap taken
      exact .inl (List.mem_append_right _ waits)
    · have later := (Moves.step inv taken).unswapped unswapped swap
      have kept : f ∈ t.pendingFunctors := by
        cases effect with
        | still still =>
          rw [still.pending]
          exact waits
        | reserved _ _ _ _ _ same =>
          rw [same]
          exact waits
        | pushed _ _ _ _ _ grows =>
          rw [grows]
          exact List.mem_append_left _ waits
        | taken _ _ _ same =>
          rw [same]
          exact waits
        | swapped => exact absurd rfl swap
      exact .inr ⟨kept, later⟩

theorem Serving.step (serving : Serving n ring pending s) (inv : Inv s) {action : Action ι}
    (bounded : Bounded s action) (other : action ≠ .leave) (taken : Loop.step s action = some t) :
    Serving n ring pending t where
  calling := (Moves.step inv taken).calling serving.calling other
  settled := settled_step inv serving.settled taken
  ring _ member := serving.ring_step inv bounded taken member
  past now := by
    have moves := Moves.step inv taken
    have come : n ≤ s.front := by
      rcases moves.past serving.calling now with before | ⟨zero, exhausted⟩
      · exact serving.past before
      · have passed := serving.settled.passed exhausted
        rw [State.front, zero]
        exact passed
    rcases moves.front with ⟨_, front⟩ | ⟨_, front, _⟩ <;> omega
  pending _ member := serving.pending_step inv bounded taken member

/-- Queued for certain: in the vector, or in the ring with every reservation up to its own committed. -/
def State.Queued (s : State ι) (f : Functor ι) : Prop :=
  f ∈ s.pendingFunctors ∨ ∃ m, s.ringFunctors[m]? = some f ∧ Mpsc.Settled (s.front + m + 1) s.queue

theorem step_drain (taken : step s .drain = some t) : s.phase = .dispatching [] ∧
    t = { s with callingPendingFunctors := true, phase := if s.queue.buffer.valid then .draining else .swapping } := by
  cases loopStep_turn (step_loop rfl taken).2 with
  | drain place => exact ⟨place, rfl⟩

theorem Serving.begins (inv : Inv s) (taken : Loop.step s .drain = some t) (settled : Mpsc.Settled n s.queue)
    (inRing : ∀ f ∈ ring, ∃ m, s.front + m < n ∧ s.ringFunctors[m]? = some f)
    (inVector : ∀ f ∈ pending, f ∈ s.pendingFunctors) : Serving n ring pending t := by
  obtain ⟨at_, result⟩ := step_drain taken
  have front : t.front = s.front := by
    rw [State.front, State.front, result, at_]
    dsimp only
    split <;> rfl
  have still : Still s t := by
    have bounded : Bounded s .drain := trivial
    have effect := (inv.step bounded taken).2
    cases effect with
    | still still => exact still
  have queue : t.queue = s.queue := by rw [result]
  constructor
  · rw [result]
    dsimp only
    split <;> rfl
  · rw [queue]
    exact settled
  · intro f member
    rw [front, still.ring]
    exact .inr (inRing f member)
  · intro past
    rw [front, State.front, at_]
    by_cases valid : s.queue.buffer.valid = true
    · rw [result] at past
      simp only [valid, if_true] at past
      cases past
    · -- without a ring there are no reservations
      apply settled.passed
      left
      rcases inv.backed with initial | ring
      · rw [initial]
        rfl
      · exact absurd ring.ring.valid valid
  · intro f member
    rw [still.pending]
    refine .inr ⟨inVector f member, ?_⟩
    rw [result]
    dsimp only
    split <;> rfl

theorem Serving.run (serving : Serving n ring pending s) (inv : Inv s)
    (call : Reaches Loop.step (fun s a => Bounded s a ∧ a ≠ .leave) s t) : Inv t ∧ Serving n ring pending t := by
  apply call.keeps ⟨inv, serving⟩
  intro before action after held admitted taken
  exact ⟨(held.1.step admitted.1 taken).1, held.2.step held.1 admitted.1 admitted.2 taken⟩

end Hvnetpp.Loop
