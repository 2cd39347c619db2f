import Hvnetpp.Loop.Rounds
import Hvnetpp.Loop.Wakeup

namespace Hvnetpp.Loop

open Machine

variable {ι : Type} [DecidableEq ι] {s t : State ι}

/-- The loop thread waits in `epoll_wait` after `quit`: it has been woken, or a thread is on its way to do so. -/
def Heard (s : State ι) : Prop :=
  s.quit = true → s.phase = .polling → s.wakeupFd ≠ 0 ∨ ∃ thread, s.callers thread = .quitting

theorem Heard.passing (heard : Heard s) {thread : ι} {place : Caller ι} (quit : t.quit = s.quit)
    (phase : t.phase = s.phase) (counter : t.wakeupFd = s.wakeupFd ∨ t.wakeupFd ≠ 0)
    (callers : t.callers = Function.update s.callers thread place) (other : s.callers thread ≠ .quitting) : Heard t := by
  intro quitting polling
  rw [quit] at quitting
  rw [phase] at polling
  rcases counter with same | woken
  · rw [same]
    rcases heard quitting polling with woken | ⟨x, on⟩
    · exact .inl woken
    · right
      refine ⟨x, ?_⟩
      rw [callers, Function.update_of_ne]
      · exact on
      · rintro rfl
        exact other on
  · exact .inl woken

theorem Heard.reserving (heard : Heard s) {thread : ι} {access : Mpsc.Action ι (Option (Functor ι))}
    (taken : s.reserving thread access = some t) : Heard t := by
  obtain ⟨f, q, _, _, _, rfl⟩ := reserving_eq taken
  exact heard

theorem Heard.callerStep (heard : Heard s) {action : Action ι} (calls : action.ofCaller = true)
    (taken : Loop.step s action = some t) : Heard t := by
  cases step_called calls taken with
  | call may => exact heard.passing rfl rfl (.inl rfl) rfl (by simp [may.1])
  | loadHead reserved => exact heard.reserving reserved
  | loadTail reserved => exact heard.reserving reserved
  | exchange reserved => exact heard.reserving reserved
  | store held => exact heard.passing rfl rfl (.inl rfl) rfl (by simp [held])
  | commit held => exact heard.passing rfl rfl (.inl rfl) rfl (by simp [held])
  | push held => exact heard.passing rfl rfl (.inl rfl) rfl (by simp [held])
  | wake waking =>
    split
    · exact heard.passing rfl rfl (.inr (signal_pos _)) rfl (by simp [waking])
    · exact heard.passing rfl rfl (.inl rfl) rfl (by simp [waking])
  | @quit thread may =>
    intro _ polling
    split at polling
    · -- the loop thread is not in its own code while it waits
      rename_i own
      have user := may.2 own
      rw [polling] at user
      cases user
    · rename_i foreign
      right
      refine ⟨thread, ?_⟩
      simp [foreign, State.setCaller]
  | quitWake =>
    intro _ _
    exact .inl (signal_pos _)

def Action.polls : Action ι → Nat
  | .poll _ => 1
  | _ => 0

def Phase.polls : Phase ι → Nat
  | .polling => 1
  | _ => 0

/-- What a step of the loop thread does about `quit_`, which it checks before it waits again. -/
structure Turns (s t : State ι) (action : Action ι) : Prop where
  quit : t.quit = s.quit
  polls : s.quit = true → t.phase.polls + action.polls ≤ s.phase.polls
  running : s.quit = true → s.phase ≠ .stopped

omit [DecidableEq ι] in
theorem Turns.away {action : Action ι} {before after : Phase ι} (quit : t.quit = s.quit) (leaves : s.phase = before)
    (arrives : t.phase = after) (polls : after.polls + action.polls ≤ before.polls)
    (running : before ≠ .stopped) : Turns s t action := by
  subst leaves
  subst arrives
  exact ⟨quit, fun _ => polls, fun _ => running⟩

theorem Turns.turn {action : Action ι} (turn : Turn s action t) : Turns s t action := by
  cases turn with
  | enter place unset => exact ⟨rfl, fun set => by simp [unset] at set, fun set => by simp [unset] at set⟩
  | drain place =>
    refine .away rfl place rfl ?_ (by simp)
    split <;> exact Nat.le_refl _
  | peek access q place => exact .away rfl place place (Nat.le_refl _) (by simp)
  | take q place =>
    unfold State.afterRead
    split <;> exact .away rfl place rfl (Nat.le_refl _) (by simp)
  | leave place =>
    refine ⟨rfl, fun set => ?_, fun _ => by simp [place]⟩
    dsimp only
    rw [if_pos set]
    exact Nat.zero_le _
  | poll batch place => exact .away rfl place rfl (Nat.le_refl _) (by simp)
  | wakeup rest place => exact .away rfl place rfl (Nat.le_refl _) (by simp)
  | handle rest place => exact .away rfl place rfl (Nat.le_refl _) (by simp)
  | handled rest place => exact .away rfl place rfl (Nat.le_refl _) (by simp)
  | exhaust access q place => exact .away rfl place rfl (Nat.le_refl _) (by simp)
  | done f place => exact .away rfl place rfl (Nat.le_refl _) (by simp)
  | clear q place => exact .away rfl place rfl (Nat.le_refl _) (by simp)
  | advance q place => exact .away rfl place rfl (Nat.le_refl _) (by simp)
  | swap place => exact .away rfl place rfl (Nat.le_refl _) (by simp)
  | serve f rest place => exact .away rfl place rfl (Nat.le_refl _) (by simp)
  | served f rest place => exact .away rfl place rfl (Nat.le_refl _) (by simp)

theorem Heard.turn {action : Action ι} (turn : Turn s action t) : Heard t := by
  intro quit polling
  have turns := Turns.turn turn
  rw [turns.quit] at quit
  have polls := turns.polls quit
  rw [polling] at polls
  cases place : s.phase <;> simp only [place, Phase.polls] at polls
  case polling =>
    -- nothing but the return of `epoll_wait` ends this phase
    cases turn <;> simp_all [Action.polls]
  all_goals omega

theorem Heard.step (heard : Heard s) {action : Action ι} (taken : Loop.step s action = some t) : Heard t := by
  cases kind : action.ofCaller with
  | true => exact heard.callerStep kind taken
  | false => exact Heard.turn (loopStep_turn (step_loop kind taken).2)

/-- After `quit` the loop thread only comes nearer to the end of `loop()`. -/
structure Quits (s t : State ι) (action : Action ι) : Prop where
  quit : t.quit = true
  polls : t.phase.polls + action.polls ≤ s.phase.polls
  enters : action ≠ .enter
  stopped : s.phase = .stopped → t.phase = .stopped ∧ t.started = s.started

theorem quit_callerStep (quit : s.quit = true) {action : Action ι} (calls : action.ofCaller = true)
    (taken : step s action = some t) : t.quit = true := by
  have reserves {thread : ι} {access : Mpsc.Action ι (Option (Functor ι))}
      (taken : s.reserving thread access = some t) : t.quit = true := by
    obtain ⟨f, q, _, _, _, rfl⟩ := reserving_eq taken
    exact quit
  cases step_called calls taken with
  | loadHead reserved => exact reserves reserved
  | loadTail reserved => exact reserves reserved
  | exchange reserved => exact reserves reserved
  | call | store | commit | push | quitWake => exact quit
  | wake => split <;> exact quit
  | quit => rfl

theorem Quits.step (inv : Inv s) (quit : s.quit = true) {action : Action ι} (taken : Loop.step s action = some t) :
    Quits s t action := by
  cases kind : action.ofCaller with
  | true =>
    have stands := Stands.callerStep inv kind taken
    have none : action.polls = 0 := by cases action <;> first | rfl | cases kind
    refine ⟨quit_callerStep quit kind taken, ?_, ?_, fun at_ => ⟨stands.phase.trans at_, stands.started⟩⟩
    · rw [stands.phase, none, Nat.add_zero]
    · rintro rfl
      cases kind
  | false =>
    have turn := loopStep_turn (step_loop kind taken).2
    have turns := Turns.turn turn
    have running := turns.running quit
    refine ⟨turns.quit.trans quit, turns.polls quit, ?_, fun at_ => absurd at_ running⟩
    rintro rfl
    cases turn with
    | enter place _ => exact running place

end Hvnetpp.Loop
