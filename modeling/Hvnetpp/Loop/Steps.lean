import Hvnetpp.Loop.Drain

namespace Hvnetpp.Loop

open Machine

variable {ι : Type} [DecidableEq ι] {s t : State ι} {thread : ι}

theorem reserving_eq {access : Mpsc.Action ι (Option (Functor ι))}
    (taken : s.reserving thread access = some t) :
    ∃ f q, s.callers thread = .holding f ∧ s.queue.buffer.valid = true ∧
      Mpsc.step s.queue access = some q ∧ t = { s with queue := q } := by
  cases place : s.callers thread <;> simp only [State.reserving, place, reduceCtorEq] at taken
  rename_i f
  split at taken
  · rename_i valid
    obtain ⟨q, ran, rfl⟩ := Option.map_eq_some_iff.mp taken
    exact ⟨f, q, rfl, valid, ran, rfl⟩
  · cases taken

/-- What an access of a caller does, by the place at which it is made. -/
inductive Called (s : State ι) : Action ι → State ι → Prop
  | call {thread : ι} : s.mayCall thread →
    Called s (.call thread) { s.setCaller thread (.holding ⟨thread, s.calls thread⟩) with
      calls := Function.update s.calls thread (s.calls thread + 1) }
  | loadHead {thread : ι} {t : State ι} : s.reserving thread (.loadHead thread) = some t → Called s (.loadHead thread) t
  | loadTail {thread : ι} {t : State ι} : s.reserving thread (.loadTail thread) = some t → Called s (.loadTail thread) t
  | exchange {thread : ι} {spurious : Bool} {t : State ι} :
    s.reserving thread (.compareExchange thread spurious) = some t → Called s (.exchange thread spurious) t
  | store {thread : ι} {f : Functor ι} {q : Mpsc.State ι (Option (Functor ι))} : s.callers thread = .holding f →
    Mpsc.step s.queue (.store thread (some f)) = some q →
    Called s (.store thread) { s.setCaller thread (.released f) with queue := q }
  | commit {thread : ι} {f : Functor ι} {q : Mpsc.State ι (Option (Functor ι))} : s.callers thread = .released f →
    Mpsc.step s.queue (.commit thread 1) = some q →
    Called s (.commit thread) { s.setCaller thread (.waking f) with queue := q }
  | push {thread : ι} {f : Functor ι} {q : Mpsc.State ι (Option (Functor ι))} : s.callers thread = .holding f →
    (if s.queue.buffer.valid then Mpsc.step s.queue (.giveUp thread) else some s.queue) = some q →
    Called s (.push thread) { s.setCaller thread (.waking f) with
      queue := q, pendingFunctors := s.pendingFunctors ++ [f] }
  | wake {thread : ι} {f : Functor ι} : s.callers thread = .waking f →
    Called s (.wake thread) (if thread ≠ s.threadId ∨ s.callingPendingFunctors = true then
      (s.setCaller thread .outside).wakeup else s.setCaller thread .outside)
  | quit {thread : ι} : s.mayCall thread →
    Called s (.quit thread) { (if thread = s.threadId then s else s.setCaller thread .quitting) with quit := true }
  | quitWake {thread : ι} : s.callers thread = .quitting →
    Called s (.quitWake thread) (s.setCaller thread .outside).wakeup

theorem step_called {action : Action ι} (calls : action.ofCaller = true) (taken : step s action = some t) :
    Called s action t := by
  rw [step, if_pos calls] at taken
  cases action with
  | call thread =>
    obtain ⟨may, taken⟩ := Option.ite_none_right_eq_some.mp taken
    cases taken
    exact .call may
  | loadHead thread => exact .loadHead taken
  | loadTail thread => exact .loadTail taken
  | exchange thread spurious => exact .exchange taken
  | store thread =>
    cases place : s.callers thread <;> simp only [callerStep, place, reduceCtorEq] at taken
    obtain ⟨q, ran, rfl⟩ := Option.map_eq_some_iff.mp taken
    exact .store place ran
  | commit thread =>
    cases place : s.callers thread <;> simp only [callerStep, place, reduceCtorEq] at taken
    obtain ⟨q, ran, rfl⟩ := Option.map_eq_some_iff.mp taken
    exact .commit place ran
  | push thread =>
    cases place : s.callers thread <;> simp only [callerStep, place, reduceCtorEq] at taken
    obtain ⟨q, ran, rfl⟩ := Option.map_eq_some_iff.mp taken
    exact .push place ran
  | wake thread =>
    cases place : s.callers thread <;> simp only [callerStep, place, reduceCtorEq] at taken
    cases taken
    exact .wake place
  | quit thread =>
    obtain ⟨may, taken⟩ := Option.ite_none_right_eq_some.mp taken
    cases taken
    exact .quit may
  | quitWake thread =>
    cases place : s.callers thread <;> simp only [callerStep, place, reduceCtorEq] at taken
    cases taken
    exact .quitWake place
  | _ => cases calls

theorem step_loop {action : Action ι} (loops : action.ofCaller = false) (taken : step s action = some t) :
    s.callers s.threadId = .outside ∧ loopStep s action s.phase = some t := by
  simp only [step, loops, Bool.false_eq_true, if_false] at taken
  split at taken
  · rename_i outside
    exact ⟨outside, taken⟩
  · cases taken

theorem Inv.reserving (inv : Inv s) (access : Mpsc.Action ι (Option (Functor ι)))
    (own : access.reserves thread) (bounded : Mpsc.TailBounded s.queue access)
    (taken : s.reserving thread access = some t) :
    Inv t ∧ (Still s t ∨ access = .compareExchange thread false ∧ Effect s t (.exchange thread false)) := by
  obtain ⟨f, q, held, valid, ran, rfl⟩ := reserving_eq taken
  have queue := inv.backed.inv valid
  have next := queue.step access bounded ran
  rcases Mpsc.reserve_cases queue own ran with quiet | ⟨h, node, exchange, attempting, rfl⟩
  · obtain ⟨kept, still⟩ := inv.quiet held next quiet
    exact ⟨kept, .inl still⟩
  · have free : ∀ node, s.queue.producers thread ≠ .reserved node := by simp [attempting]
    have won : s.queue.attempt thread = some s.queue.buffer.tail := by simp [Mpsc.State.attempt, attempting]
    refine ⟨inv.reserve held free next, .inr ⟨exchange, ?_⟩⟩
    exact .reserved f held won rfl (ringFunctors_reserve held _ node inv.front_le) rfl

theorem Inv.callerStep (inv : Inv s) {action : Action ι} (bounded : Bounded s action)
    (calls : action.ofCaller = true) (taken : step s action = some t) : Inv t ∧ Effect s t action := by
  have still : Inv t ∧ Still s t → Inv t ∧ Effect s t action := fun kept => ⟨kept.1, .still kept.2⟩
  cases step_called calls taken with
  | call may => exact still (inv.call may.1 rfl)
  | @loadHead thread _ taken =>
    obtain ⟨next, kept | ⟨exchange, _⟩⟩ := inv.reserving (.loadHead thread) rfl trivial taken
    · exact still ⟨next, kept⟩
    · cases exchange
  | @loadTail thread _ taken =>
    obtain ⟨next, kept | ⟨exchange, _⟩⟩ := inv.reserving (.loadTail thread) rfl trivial taken
    · exact still ⟨next, kept⟩
    · cases exchange
  | @exchange thread spurious _ taken =>
    obtain ⟨next, kept | ⟨exchange, effect⟩⟩ :=
      inv.reserving (.compareExchange thread spurious) rfl bounded taken
    · exact still ⟨next, kept⟩
    · cases exchange
      exact ⟨next, effect⟩
  | @store thread _ _ held ran =>
    obtain ⟨node, reserved, _⟩ := Mpsc.step_store ran
    exact still (inv.store held (inv.queue thread (by simp [reserved])) ran rfl)
  | @commit thread _ _ held ran =>
    obtain ⟨node, written, _⟩ := Mpsc.step_commit ran
    exact still (inv.commit held (inv.queue thread (by simp [written])) ran rfl)
  | push held ran => exact inv.push held ran rfl
  | @wake thread _ waking =>
    have caller := inv.callers thread
    rw [waking] at caller
    apply still
    split <;> exact inv.pass .outside caller.2.2 (by simp [waking]) rfl rfl (.inl rfl) rfl rfl rfl rfl rfl rfl
  | quit may =>
    apply still
    split
    · exact inv.rephase rfl rfl rfl rfl rfl rfl rfl rfl (inv.phase.congr rfl rfl rfl) inv.history
    · exact inv.pass .quitting (inv.outside_idle may.1) (by simp [may.1]) rfl rfl (.inr rfl) rfl rfl rfl
        rfl rfl rfl
  | @quitWake thread quitting =>
    have caller := inv.callers thread
    rw [quitting] at caller
    exact still (inv.pass .outside caller (by simp [quitting]) rfl rfl (.inl rfl) rfl rfl rfl rfl rfl rfl)

theorem Inv.loopStep (inv : Inv s) {action : Action ι} (taken : loopStep s action s.phase = some t) :
    Inv t ∧ Effect s t action := by
  have still : Inv t ∧ Still s t → Inv t ∧ Effect s t action := fun kept => ⟨kept.1, .still kept.2⟩
  cases place : s.phase with
  | stopped =>
    have stands := inv.at_phase place
    have history := inv.history_at place
    cases action <;> simp only [place, Loop.loopStep, reduceCtorEq] at taken
    split at taken <;> cases taken
    exact still (inv.rephase place rfl rfl rfl rfl rfl rfl rfl stands history)
  | polling =>
    have stands := inv.at_phase place
    have history := inv.history_at place
    cases action <;> simp only [place, Loop.loopStep, reduceCtorEq] at taken
    split at taken <;> cases taken
    exact still (inv.rephase place rfl rfl rfl rfl rfl rfl rfl stands history)
  | dispatching rest =>
    have stands := inv.at_phase place
    have history := inv.history_at place
    rcases rest with _ | ⟨event, rest⟩
    · cases action <;> simp only [place, Loop.loopStep, reduceCtorEq] at taken
      cases taken
      apply still
      split
      · rename_i valid
        exact inv.rephase place rfl rfl rfl rfl rfl rfl rfl ⟨valid, rfl, by simp [stands.1]⟩ history
      · exact inv.rephase place rfl rfl rfl rfl rfl rfl rfl ⟨stands.1, rfl⟩ history
    · cases event <;> cases action <;> simp only [place, Loop.loopStep, reduceCtorEq] at taken <;>
        cases taken <;> exact still (inv.rephase place rfl rfl rfl rfl rfl rfl rfl stands history)
  | handling rest =>
    have stands := inv.at_phase place
    have history := inv.history_at place
    cases action <;> simp only [place, Loop.loopStep, reduceCtorEq] at taken
    cases taken
    exact still (inv.rephase place rfl rfl rfl rfl rfl rfl rfl stands history)
  | draining =>
    cases action <;> simp only [place, Loop.loopStep, reduceCtorEq] at taken
    case peek access =>
      obtain ⟨q, ran, result⟩ := Option.map_eq_some_iff.mp taken
      exact still (inv.peek access place ran result.symm)
    case take =>
      obtain ⟨q, ran, result⟩ := Option.map_eq_some_iff.mp taken
      exact inv.take place ran result.symm
  | running f =>
    obtain ⟨valid, calling, node, reading⟩ := inv.at_phase place
    have history := inv.history_at place
    cases action <;> simp only [place, Loop.loopStep, reduceCtorEq] at taken
    cases taken
    exact still (inv.rephase place rfl rfl rfl rfl rfl rfl rfl ⟨valid, calling, node, _, .inl reading⟩
      (history.trans (List.append_nil _).symm))
  | ran =>
    cases action <;> simp only [place, Loop.loopStep, reduceCtorEq] at taken
    case clear =>
      obtain ⟨q, ran, result⟩ := Option.map_eq_some_iff.mp taken
      exact still (inv.clear place ran (by rw [place]; exact result.symm))
    case advance =>
      obtain ⟨q, ran, result⟩ := Option.map_eq_some_iff.mp taken
      exact still (inv.advance place ran result.symm)
  | swapping =>
    cases action <;> simp only [place, Loop.loopStep, Option.some.injEq, reduceCtorEq] at taken
    exact inv.swap place taken.symm
  | serving rest =>
    have stands := inv.at_phase place
    have history := inv.history_at place
    rcases rest with _ | ⟨f, rest⟩
    · cases action <;> simp only [place, Loop.loopStep, reduceCtorEq] at taken
      cases taken
      apply still
      split <;> exact inv.rephase place rfl rfl rfl rfl rfl rfl rfl ⟨stands.1, rfl⟩ history
    · cases action <;> simp only [place, Loop.loopStep, reduceCtorEq] at taken
      cases taken
      refine still (inv.rephase place rfl rfl rfl rfl rfl rfl ?_ stands ?_)
      · simp [Phase.rest]
      · rw [history]
        simp [Phase.current]
  | executing f rest =>
    have stands := inv.at_phase place
    have history := inv.history_at place
    cases action <;> simp only [place, Loop.loopStep, reduceCtorEq] at taken
    cases taken
    exact still (inv.rephase place rfl rfl rfl rfl rfl rfl rfl stands
      (history.trans (List.append_nil _).symm))

/-- What one step keeps, and what it can do to the functors handed to the loop. -/
theorem Inv.step (inv : Inv s) {action : Action ι} (bounded : Bounded s action)
    (taken : step s action = some t) : Inv t ∧ Effect s t action := by
  cases kind : action.ofCaller with
  | true => exact inv.callerStep bounded kind taken
  | false => exact inv.loopStep (step_loop kind taken).2

theorem Inv.reaches (inv : Inv s) (run : Reaches Loop.step Bounded s t) : Inv t :=
  run.keeps inv fun _ _ _ held bounded taken => (held.step bounded taken).1

theorem reachable_inv {threadId : ι} {mapped : Bool}
    (run : Reaches Loop.step Bounded (State.initial threadId mapped) s) : Inv s :=
  (Inv.initial threadId mapped).reaches run

end Hvnetpp.Loop
