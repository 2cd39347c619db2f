import Hvnetpp.Timers.Ownership
import Hvnetpp.Timers.Calls

namespace Hvnetpp.Timers

open Machine

theorem Schedule.start_le {start interval next : Int} {runs : List Run}
    (schedule : Schedule start interval runs next) : start ≤ next := by
  induction schedule with
  | first => exact le_refl _
  | next before due _ least hypothesis => exact hypothesis.trans (due.trans (le_of_lt least.1.2))

theorem Ran.start_le {start interval : Int} {runs : List Run} (ran : Ran start interval runs) :
    ∀ run ∈ runs, start ≤ run.now := by
  have scheduled : ∀ {runs : List Run} {next : Int}, Schedule start interval runs next →
      ∀ run ∈ runs, start ≤ run.now := by
    intro runs next schedule
    induction schedule with
    | first => exact fun run member => nomatch member
    | next before due _ _ hypothesis =>
      intro run member
      rcases List.mem_append.mp member with earlier | last
      · exact hypothesis run earlier
      · rw [List.mem_singleton.mp last]
        exact before.start_le.trans due
  cases ran with
  | none => exact fun run member => nomatch member
  | some before due =>
    intro run member
    rcases List.mem_append.mp member with earlier | last
    · exact scheduled before run earlier
    · rw [List.mem_singleton.mp last]
      exact before.start_le.trans due

variable {ι : Type} {s t : System ι}

/-- A timer still waits for its `addTimerInLoop`. -/
def State.Unadded (s : State) (id : TimerId) : Prop :=
  id.timer ∈ s.incoming ∧ (s.queue.heap id.timer).map Timer.sequence = some id.sequence

instance (s : State) (id : TimerId) : Decidable (s.Unadded id) := inferInstanceAs (Decidable (_ ∧ _))

/-- A cancellation called before the first expiration is final. -/
def Effective (h : History) (id : TimerId) (clock : Int) : Prop :=
  ∀ start interval, h.made id.sequence = some (start, interval) → clock < start →
    Final id h.timers ∧ id.sequence ∉ h.timers.started

structure Settled (s : System ι) : Prop where
  kept : Kept s.history
  counted : ∀ sequence, s.history.timers.started.count sequence = (s.history.runs sequence).length
  owned : Owned s.history.timers.queue s.history.timers.incoming s.history.timers.inBatch
  begun : ∀ batch, s.history.timers.batch = some batch → batch.now ≤ s.clock
  past : ∀ sequence, ∀ run ∈ s.history.runs sequence, run.now ≤ s.clock
  ids : ∀ id ∈ s.ids, id.sequence ≤ s.history.timers.numCreated ∧
    ∀ timer value, s.history.timers.queue.heap timer = some value → value.sequence = id.sequence → timer = id.timer
  queued : ∀ functor id, s.requests functor = some (.cancelInLoop id) → id ∈ s.ids
  cancels : ∀ record ∈ s.cancels, record.1 ∈ s.ids ∧ Effective s.history record.1 record.2

theorem Settled.initial (threadId : ι) (mapped : Bool) (numCreated : Nat) :
    Settled (System.initial threadId mapped numCreated) where
  kept := Kept.initial numCreated
  counted := fun _ => rfl
  owned := fun _ _ present => nomatch present
  begun := fun _ at_ => nomatch at_
  past := fun _ _ member => nomatch member
  ids := fun _ member => nomatch member
  queued := fun _ _ request => nomatch request
  cancels := fun _ member => nomatch member

section History

variable {h k : History} {t : State}

theorem made_stable {action : Action} (moved : h.step action = some k) {sequence : Nat}
    (old : sequence ≤ h.timers.numCreated) : k.made sequence = h.made sequence := by
  obtain ⟨t, _, rfl⟩ := Option.map_eq_some_iff.mp moved
  cases action
  case create timer when interval =>
    have other : sequence ≠ h.timers.numCreated + 1 := by omega
    exact Function.update_of_ne other _ _
  case run =>
    simp only [History.note]
    split <;> rfl
  all_goals rfl

/-- A batch keeps its reading, and a callback is started under the reading of its batch. -/
theorem Kept.readings (kept : Kept h) {action : Action} (moved : h.step action = some k) :
    (∀ batch, k.timers.batch = some batch → action = .handleRead batch.now ∨
      ∃ before, h.timers.batch = some before ∧ before.now = batch.now) ∧
    ∀ sequence, ∀ run ∈ k.runs sequence, run ∈ h.runs sequence ∨
      ∃ before, h.timers.batch = some before ∧ run.now = before.now := by
  obtain ⟨t, taken, rfl⟩ := Option.map_eq_some_iff.mp moved
  cases action
  case run =>
    obtain ⟨now, visited, entry, rest, value, at_, present, rfl⟩ := kept.inv.step_run taken
    refine ⟨?_, ?_⟩
    · intro batch found
      cases found
      exact .inr ⟨_, at_, rfl⟩
    · intro sequence run member
      simp only [History.note, State.starting, at_, present, Option.map_some] at member
      by_cases own : sequence = value.sequence
      · subst own
        rw [Function.update_self] at member
        rcases List.mem_append.mp member with old | new
        · exact .inl old
        · rw [List.mem_singleton.mp new]
          exact .inr ⟨_, at_, rfl⟩
      · rw [Function.update_of_ne own] at member
        exact .inl member
  all_goals
    refine ⟨?_, fun _ _ member => .inl member⟩
    simp only [Timers.step] at taken
  case createElsewhere =>
    cases taken
    exact fun batch at_ => .inr ⟨batch, at_, rfl⟩
  case handleRead now =>
    split at taken
    · cases taken
      intro batch found
      cases found
      exact .inl rfl
    · cases taken
  case returned =>
    split at taken
    · rename_i at_
      cases taken
      intro batch found
      cases found
      exact .inr ⟨_, at_, rfl⟩
    · cases taken
  case reset clock =>
    split at taken
    · cases taken
      intro batch found
      cases found
    · cases taken
  all_goals
    split at taken
    · cases taken
      exact fun batch at_ => .inr ⟨batch, at_, rfl⟩
    · cases taken

theorem Effective.step {id : TimerId} {clock : Int} (effective : Effective h id clock) (kept : Kept h)
    (old : id.sequence ≤ h.timers.numCreated) {action : Action} (moved : h.step action = some k) :
    Effective k id clock := by
  intro start interval made early
  rw [made_stable moved old] at made
  obtain ⟨final, silent⟩ := effective start interval made early
  obtain ⟨t, taken, rfl⟩ := Option.map_eq_some_iff.mp moved
  obtain ⟨later, started, absent⟩ := final.quiet kept.inv taken
  refine ⟨final.step kept.inv taken, ?_⟩
  rw [started, List.mem_append]
  exact not_or_intro silent absent

theorem Kept.start_le (kept : Kept h) {timer : Nat} {value : Timer} {start interval : Int}
    (present : h.timers.queue.heap timer = some value) (made : h.made value.sequence = some (start, interval)) :
    start ≤ value.expiration := by
  obtain ⟨start', interval', placed⟩ := kept.placed timer value present
  cases placed.made.symm.trans made
  by_cases waiting : ∀ now, ¬ h.timers.Passed now timer
  · exact (placed.waiting waiting).start_le
  · obtain ⟨now, passed⟩ := not_forall.mp waiting
    obtain ⟨_, _, schedule, _⟩ := placed.passed now (not_not.mp passed)
    exact schedule.start_le

/-- Once it has been added, a timer that is not due is in the set, where `cancelInLoop` finds it. -/
theorem Kept.cancelled (kept : Kept h) (owned : Owned h.timers.queue h.timers.incoming h.timers.inBatch)
    {id : TimerId} {clock start interval : Int} (old : id.sequence ≤ h.timers.numCreated)
    (own : ∀ timer value, h.timers.queue.heap timer = some value → value.sequence = id.sequence → timer = id.timer)
    (begun : ∀ batch, h.timers.batch = some batch → batch.now ≤ clock) (added : ¬ h.timers.Unadded id)
    (made : h.made id.sequence = some (start, interval)) (early : clock < start)
    (taken : Timers.step h.timers (.cancelInLoop id clock) = some t) : Final id t := by
  by_cases alive : h.timers.queue.Alive id.sequence
  · obtain ⟨timer, value, present, number⟩ := alive
    have same := own timer value present number
    subst same
    have late := kept.start_le present (number ▸ made)
    have inactive : ∀ entry ∈ h.timers.inBatch, entry.timer ≠ id.timer := by
      intro entry listed equal
      obtain ⟨found, there, expiration⟩ := kept.inv.rep.live entry (.inr listed)
      rw [equal, present] at there
      cases there
      cases at_ : h.timers.batch with
      | none =>
        rw [State.inBatch, at_] at listed
        cases listed
      | some batch =>
        rw [State.inBatch, at_] at listed
        have due := kept.due batch at_ entry listed
        have now := begun batch at_
        omega
    rcases listed_iff.mp (owned _ _ present) with ⟨entry, member, equal⟩ | ⟨entry, member, equal⟩ | waiting
    · have active : id ∈ h.timers.queue.activeTimers :=
        (kept.inv.rep.active id).mpr ⟨entry, member, equal, value, present, number⟩
      obtain ⟨_, rfl⟩ := step_cancelInLoop taken
      apply kept.inv.cancelled (.inl active)
      rintro ⟨batch, at_, batched, rest, twin⟩
      apply inactive batched _ twin
      rw [State.inBatch, at_]
      exact List.mem_append_right _ rest
    · exact absurd equal (inactive entry member)
    · exact absurd ⟨waiting, by rw [present, Option.map_some, number]⟩ added
  · have gone : Final id h.timers := .deleted old fun timer value present number => alive ⟨timer, value, present, number⟩
    exact gone.step kept.inv taken

end History

theorem Settled.read (held : Settled s) {clock : Int} (read : s.read clock = some t) :
    Settled t ∧ t = { s with clock := clock } := by
  unfold System.read at read
  split at read
  · rename_i later
    cases read
    refine ⟨{ held with begun := ?_, past := ?_ }, rfl⟩
    · intro batch at_
      exact (held.begun batch at_).trans later
    · intro sequence run member
      exact (held.past sequence run member).trans later
  · cases read

theorem Settled.act (held : Settled s) {action : Action} (known : ∀ reading ∈ action.reading, reading = s.clock)
    (acted : s.act action = some t) : Settled t := by
  obtain ⟨history, moved, rfl⟩ := Option.map_eq_some_iff.mp acted
  obtain ⟨batches, runs⟩ := held.kept.readings moved
  have counted := held.kept.counts moved held.counted
  have kept := held.kept.step moved
  have effective : ∀ record ∈ s.cancels, record.1 ∈ s.ids ∧ Effective history record.1 record.2 := by
    intro record member
    obtain ⟨returned, effective⟩ := held.cancels record member
    exact ⟨returned, effective.step held.kept (held.ids _ returned).1 moved⟩
  obtain ⟨next, taken, rfl⟩ := Option.map_eq_some_iff.mp moved
  have aged := held.kept.inv.ages taken
  refine ⟨kept, counted, held.owned.step held.kept.inv taken, ?_, ?_, ?_, held.queued, effective⟩
  · intro batch at_
    rcases batches batch at_ with rfl | ⟨before, found, same⟩
    · exact le_of_eq (known _ rfl)
    · rw [← same]
      exact held.begun before found
  · intro sequence run member
    rcases runs sequence run member with old | ⟨before, found, same⟩
    · exact held.past sequence run old
    · rw [same]
      exact held.begun before found
  · intro id member
    obtain ⟨old, own⟩ := held.ids id member
    refine ⟨old.trans aged.created, ?_⟩
    intro timer value present number
    rcases aged.numbers timer value present with ⟨before, found, same⟩ | newer
    · exact own timer before found (same.trans number)
    · omega

theorem Settled.addTimerInLoop (held : Settled s) {timer : Nat} {clock : Int}
    (moved : s.addTimerInLoop timer clock = some t) : Settled t := by
  obtain ⟨middle, read, acted⟩ := Option.bind_eq_some_iff.mp moved
  obtain ⟨next, rfl⟩ := held.read read
  exact next.act (fun reading same => (Option.mem_some.mp same).symm) acted

theorem Settled.cancelInLoop (held : Settled s) {id : TimerId} {clock : Int} (returned : id ∈ s.ids)
    (added : ¬ s.history.timers.Unadded id) (moved : s.cancelInLoop id clock = some t) : Settled t := by
  obtain ⟨middle, read, moved⟩ := Option.bind_eq_some_iff.mp moved
  obtain ⟨after, acted, rfl⟩ := Option.map_eq_some_iff.mp moved
  obtain ⟨next, rfl⟩ := held.read read
  have settled := next.act (fun reading same => (Option.mem_some.mp same).symm) acted
  obtain ⟨history, step, rfl⟩ := Option.map_eq_some_iff.mp acted
  have old := (held.ids id returned).1
  have effective : Effective history id clock := by
    intro start interval made early
    have silent : history.runs id.sequence = [] := by
      rw [List.eq_nil_iff_forall_not_mem]
      intro run member
      have lower := (settled.kept.ran _ _ _ made).start_le run member
      have upper := settled.past _ run member
      simp only at upper
      omega
    have count := settled.counted id.sequence
    simp only [silent, List.length_nil] at count
    rw [made_stable step old] at made
    obtain ⟨after, taken, rfl⟩ := Option.map_eq_some_iff.mp step
    exact ⟨held.kept.cancelled held.owned old (held.ids id returned).2 next.begun added made early taken,
      List.count_eq_zero.mp count⟩
  refine { settled with cancels := ?_ }
  intro record member
  rcases List.mem_append.mp member with earlier | last
  · exact settled.cancels record earlier
  · rw [List.mem_singleton.mp last]
    exact ⟨returned, effective⟩

theorem Settled.returnId (held : Settled s) (timer : Nat) : Settled (s.returnId timer) := by
  unfold System.returnId
  split
  · rename_i value present
    refine { held with ids := ?_, queued := ?_, cancels := ?_ }
    · intro id member
      rcases List.mem_append.mp member with earlier | last
      · exact held.ids id earlier
      · rw [List.mem_singleton.mp last]
        refine ⟨(held.kept.inv.rep.numbered _ _ present).1, ?_⟩
        intro other found there number
        exact held.kept.inv.rep.unique _ _ _ _ there present number
    · intro functor id request
      exact List.mem_append_left _ (held.queued functor id request)
    · intro record member
      obtain ⟨returned, effective⟩ := held.cancels record member
      exact ⟨List.mem_append_left _ returned, effective⟩
  · exact { held with }

section Steps

variable [DecidableEq ι]

/-- The id that `cancelInLoop` is called with in this step, at once on the loop thread or by a functor. -/
def System.cancelling (s : System ι) : Call ι → Option TimerId
  | .cancel thread id _ => if thread = s.loop.threadId then some id else none
  | .execute _ =>
    match s.request with
    | some (.cancelInLoop id) => some id
    | _ => none
  | _ => none

/-- `cancelInLoop` comes after the timer's own `addTimerInLoop`. -/
def AddedFirst (s : System ι) (call : Call ι) : Prop :=
  ∀ id ∈ s.cancelling call, ¬ s.history.timers.Unadded id

instance (s : System ι) (call : Call ι) : Decidable (AddedFirst s call) :=
  inferInstanceAs (Decidable (∀ id ∈ s.cancelling call, ¬ s.history.timers.Unadded id))

theorem Settled.queueInLoop (held : Settled s) {thread : ι} {request : Request}
    (returned : ∀ id, request = .cancelInLoop id → id ∈ s.ids)
    (moved : s.queueInLoop thread request = some t) : Settled t := by
  obtain ⟨loop, _, rfl⟩ := Option.map_eq_some_iff.mp moved
  refine { held with queued := ?_ }
  intro functor id waiting
  by_cases own : functor = ⟨thread, s.loop.calls thread⟩
  · simp only [own, Function.update_self, Option.some.injEq] at waiting
    exact returned id waiting
  · simp only [Function.update_of_ne own] at waiting
    exact held.queued functor id waiting

theorem Settled.addTimer (held : Settled s) {thread : ι} {timer : Nat} {when interval clock : Int}
    (moved : s.addTimer thread timer when interval clock = some t) : Settled t := by
  obtain ⟨created, acted, moved⟩ := Option.bind_eq_some_iff.mp moved
  have next := held.act (fun _ absent => by cases absent) acted
  split at moved
  · obtain ⟨added, inserted, rfl⟩ := Option.map_eq_some_iff.mp moved
    exact (next.addTimerInLoop inserted).returnId timer
  · obtain ⟨queued, waiting, rfl⟩ := Option.map_eq_some_iff.mp moved
    have after := next.queueInLoop (fun _ other => by cases other) waiting
    exact { after with }

theorem Settled.cancel (held : Settled s) {thread : ι} {id : TimerId} {clock : Int} (returned : id ∈ s.ids)
    (added : thread = s.loop.threadId → ¬ s.history.timers.Unadded id)
    (moved : s.cancel thread id clock = some t) : Settled t := by
  unfold System.cancel at moved
  split at moved
  · rename_i own
    exact held.cancelInLoop returned (added own) moved
  · apply held.queueInLoop _ moved
    intro other same
    cases same
    exact returned

theorem Settled.execute (held : Settled s) {clock : Int}
    (added : ∀ id, s.request = some (.cancelInLoop id) → ¬ s.history.timers.Unadded id)
    (moved : s.execute clock = some t) : Settled t := by
  obtain ⟨functor, current, moved⟩ := Option.bind_eq_some_iff.mp moved
  have request : s.request = s.requests functor := by rw [System.request, current, Option.bind_some]
  have done : Settled { s with requests := Function.update s.requests functor none } := by
    refine { held with queued := ?_ }
    intro other id waiting
    by_cases own : other = functor
    · simp only [own, Function.update_self] at waiting
      cases waiting
    · simp only [Function.update_of_ne own] at waiting
      exact held.queued other id waiting
  split at moved
  · exact done.addTimerInLoop moved
  · rename_i id waiting
    exact done.cancelInLoop (held.queued functor id waiting) (added id (request.trans waiting)) moved
  · cases moved

theorem Settled.step (held : Settled s) {call : Call ι} (first : AddedFirst s call)
    (taken : s.step call = some t) : Settled t := by
  cases call <;> simp only [System.step] at taken
  case elsewhere => exact held.act (fun _ absent => by cases absent) taken
  case added thread =>
    split at taken
    · rename_i timer _
      split at taken
      · cases taken
        have left : Settled { s with adding := Function.update s.adding thread none } := { held with }
        exact left.returnId timer
      · cases taken
    · cases taken
  all_goals
    split at taken
    case isFalse => cases taken
  case loop action =>
    obtain ⟨loop, _, rfl⟩ := Option.map_eq_some_iff.mp taken
    exact { held with }
  case addTimer thread timer when interval clock => exact held.addTimer taken
  case cancel thread id clock may =>
    apply held.cancel may.2 _ taken
    intro own
    exact first id (by simp only [System.cancelling, own, ↓reduceIte, Option.mem_some])
  case execute clock =>
    apply held.execute _ taken
    intro id request
    exact first id (by simp only [System.cancelling, request, Option.mem_some])
  case run => exact held.act (fun _ absent => by cases absent) taken
  case returned => exact held.act (fun _ absent => by cases absent) taken
  case handleRead now =>
    obtain ⟨middle, read, acted⟩ := Option.bind_eq_some_iff.mp taken
    obtain ⟨next, rfl⟩ := held.read read
    exact next.act (fun reading same => (Option.mem_some.mp same).symm) acted
  case reset clock =>
    obtain ⟨middle, read, acted⟩ := Option.bind_eq_some_iff.mp taken
    obtain ⟨next, rfl⟩ := held.read read
    exact next.act (fun reading same => (Option.mem_some.mp same).symm) acted

/-- A timer cancelled before its expiration is never run, as long as every `cancelInLoop` comes after the
    `addTimerInLoop` of its timer. -/
theorem cancel_takes_effect {threadId : ι} {mapped : Bool} {numCreated : Nat}
    (run : Reaches System.step AddedFirst (System.initial threadId mapped numCreated) s) {id : TimerId}
    {clock start interval : Int} (cancelled : (id, clock) ∈ s.cancels)
    (made : s.history.made id.sequence = some (start, interval)) (early : clock < start) :
    id.sequence ∉ s.history.timers.started := by
  have held : Settled s :=
    run.keeps (Settled.initial threadId mapped numCreated) fun _ _ _ held first taken => held.step first taken
  exact ((held.cancels _ cancelled).2 start interval made early).2

/-- Thread `other` adds a timer through the ring and has its id back; the loop sleeps. -/
def addedElsewhere (other : ι) : List (Call ι) :=
  [.loop .enter, .addTimer other 8 100 0 1] ++ List.map Call.loop
    [.loadHead other, .loadTail other, .exchange other false, .store other, .commit other, .wake other] ++
    [.added other]

/-- The loop wakes up to a handler, and to the functor. -/
def wakesUp : List (Call ι) := List.map Call.loop [.poll [.wakeup, .other], .dispatch, .dispatch]

def drains : List (Call ι) :=
  List.map Call.loop [.handled, .drain, .peek .head, .peek .tail, .peek .node, .peek .id, .take] ++ [.execute 11] ++
    List.map Call.loop [.done, .clear, .advance, .peek .head, .peek .tail, .swap, .leave, .poll [.other], .dispatch]

theorem cancel_takes_effect_added : ∃ s : System (Fin 2), s.cancels = [(⟨8, 1⟩, 12)] ∧
    s.history.made 1 = some (100, 0) ∧ s.clock = 200 ∧ 1 ∉ s.history.timers.started := by
  have ran : (exec (guarded System.step AddedFirst) (System.initial (0 : Fin 2) true 0)
      (addedElsewhere 1 ++ wakesUp ++ drains ++ [.cancel 0 ⟨8, 1⟩ 12, .handleRead 200])).map (fun s =>
        (s.cancels, s.history.made 1, s.clock)) = some ([(⟨8, 1⟩, 12)], some (100, 0), 200) := by decide
  obtain ⟨s, reached, facts⟩ := Option.map_eq_some_iff.mp ran
  simp only [Prod.mk.injEq] at facts
  obtain ⟨cancels, made, clock⟩ := facts
  have cancelled : ((⟨8, 1⟩, 12) : TimerId × Int) ∈ s.cancels := by
    rw [cancels]
    exact List.mem_singleton_self _
  exact ⟨s, cancels, made, clock, cancel_takes_effect (exec_guarded_reaches reached) cancelled made (by decide)⟩

/-- A handler on the loop thread cancels at once what another thread has queued: the functor then adds the
    timer, which fires. -/
theorem cancel_overtakes_add : ∃ s : System (Fin 2), Reaches System.step Any (System.initial 0 true 0) s ∧
    s.ids = [⟨8, 1⟩] ∧ s.cancels = [(⟨8, 1⟩, 10)] ∧ s.history.made 1 = some (100, 0) ∧
    s.history.timers.started = [1] := by
  have ran : (exec System.step (System.initial (0 : Fin 2) true 0)
      (addedElsewhere 1 ++ wakesUp ++ [.cancel 0 ⟨8, 1⟩ 10] ++ drains ++ [.handleRead 200, .run])).map (fun s =>
        ((s.ids, s.cancels), s.history.made 1, s.history.timers.started)) =
      some (([⟨8, 1⟩], [(⟨8, 1⟩, 10)]), some (100, 0), [1]) := by decide
  obtain ⟨s, reached, facts⟩ := Option.map_eq_some_iff.mp ran
  simp only [Prod.mk.injEq] at facts
  obtain ⟨⟨ids, cancels⟩, made, started⟩ := facts
  exact ⟨s, exec_reaches reached, ids, cancels, made, started⟩

end Steps

end Hvnetpp.Timers
