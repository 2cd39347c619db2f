import Hvnetpp.Timers.History
import Hvnetpp.Timers.Stale

namespace Hvnetpp.Timers

open Machine

variable {q : TimerQueue} {s t u v : State} {numCreated : Nat} {incoming : List Nat} {batch : List Entry} {now : Int}

/-- The timers in the set that are due at `now`, in the order of the set. -/
def TimerQueue.due (q : TimerQueue) (now : Int) : List Entry :=
  q.timers.elems.filter fun entry => decide (entry.expiration ≤ now)

/-- No address is beyond that of the sentinel, so `lower_bound` cuts behind the last due timer. -/
theorem Rep.expired_eq_due (rep : Rep q numCreated incoming batch) (now : Int) : q.expired now = q.due now := by
  unfold TimerQueue.expired TimerQueue.due
  rw [OrderedSet.below_eq_filter]
  apply List.filter_congr
  intro entry member
  obtain ⟨value, present, _⟩ := rep.live entry (.inl member)
  have bound := (rep.numbered _ _ present).2
  rw [decide_eq_decide]
  constructor
  · intro below
    exact sentry_due (OrderedSet.mem_below.mpr ⟨member, below⟩)
  · intro due
    by_contra above
    have late := sentry_late bound (not_lt.mp above)
    omega

/-- The timer that an entry points to was created with this number. -/
def TimerQueue.Numbered (q : TimerQueue) (entry : Entry) (sequence : Nat) : Prop :=
  ∃ value, q.heap entry.timer = some value ∧ value.sequence = sequence

/-- The steps between the `getExpired` and the `reset` of one `handleRead`. -/
def Inside (_ : State) : Action → Prop
  | .reset _ => False
  | .create _ _ _ | .createElsewhere | .addTimerInLoop _ _ | .cancelInLoop _ _ | .handleRead _ | .run | .returned => True

instance (s : State) : (action : Action) → Decidable (Inside s action)
  | .reset _ => isFalse id
  | .create _ _ _ | .createElsewhere | .addTimerInLoop _ _ | .cancelInLoop _ _ | .handleRead _ | .run | .returned =>
    isTrue trivial

/-- How far a batch has come: it runs the due timers of `s`, and it has started the first of them. -/
structure Progress (s : State) (now : Int) (u : State) (done rest : List Entry) : Prop where
  due : done ++ rest = s.queue.due now
  started : ∃ later, u.started = s.started ++ later ∧ List.Forall₂ s.queue.Numbered done later

/-- What holds inside the `handleRead` that was begun in `s`. -/
structure Serving (s : State) (now : Int) (u : State) : Prop where
  inv : Inv u
  progress : ∃ visited current rest, u.batch = some ⟨now, visited, current, rest⟩ ∧
    Progress s now u (visited ++ current.toList) rest
  numbers : ∀ entry ∈ s.queue.due now, ∀ value, u.queue.heap entry.timer = some value →
    s.queue.Numbered entry value.sequence

theorem step_handleRead (taken : step s (.handleRead now) = some t) : s.batch = none ∧ t = { s with
    queue := { (s.queue.readTimerfd now).getExpired now with callingExpiredTimers := true, cancelingTimers := ∅ }
    batch := some ⟨now, [], none, s.queue.expired now⟩ } := by
  simp only [step] at taken
  split at taken
  · rename_i none
    cases taken
    exact ⟨none, rfl⟩
  · cases taken

theorem Serving.begin (inv : Inv s) (taken : step s (.handleRead now) = some t) : Serving s now t := by
  have next := inv.step taken
  obtain ⟨_, rfl⟩ := step_handleRead taken
  refine ⟨next, ⟨[], none, s.queue.expired now, rfl, ?_⟩, ?_⟩
  · exact ⟨inv.rep.expired_eq_due now, [], (List.append_nil _).symm, .nil⟩
  · intro entry _ value present
    have heap := (Keeps.getExpired (s.queue.readTimerfd now) now).heap
    exact ⟨value, by rw [← present]; exact congrFun heap.symm _, rfl⟩

theorem Serving.listed (serving : Serving s now u) {entry : Entry} (member : entry ∈ s.queue.due now) :
    entry ∈ u.inBatch := by
  obtain ⟨visited, current, rest, at_, progress⟩ := serving.progress
  rw [State.inBatch, at_]
  show entry ∈ visited ++ current.toList ++ rest
  rw [progress.due]
  exact member

/-- The entries of a batch keep their objects, so the numbers do not change under it. -/
theorem Serving.keeps_numbers (serving : Serving s now u) {action : Action} (taken : step u action = some v) :
    ∀ entry ∈ s.queue.due now, ∀ value, v.queue.heap entry.timer = some value →
      s.queue.Numbered entry value.sequence := by
  intro entry member value after
  obtain ⟨old, before, _⟩ := serving.inv.rep.live entry (.inr (serving.listed member))
  rw [serving.inv.keeps_number taken before after]
  exact serving.numbers entry member old before

/-- A step that neither starts a callback nor ends one. -/
theorem Serving.frame (serving : Serving s now u) {action : Action} (taken : step u action = some v)
    (batch : v.batch = u.batch) (started : v.started = u.started) : Serving s now v := by
  refine ⟨serving.inv.step taken, ?_, serving.keeps_numbers taken⟩
  obtain ⟨visited, current, rest, at_, progress⟩ := serving.progress
  exact ⟨visited, current, rest, batch.trans at_, progress.due, started ▸ progress.started⟩

theorem Serving.run (serving : Serving s now u) (taken : step u .run = some v) : Serving s now v := by
  have numbers := serving.keeps_numbers taken
  have inv := serving.inv.step taken
  obtain ⟨now', visited, entry, rest, value, at_, present, rfl⟩ := serving.inv.step_run taken
  obtain ⟨visited', current, rest', found, progress⟩ := serving.progress
  cases at_.symm.trans found
  rw [Option.toList_none, List.append_nil] at progress
  obtain ⟨later, started, all⟩ := progress.started
  have due := progress.due
  have number : s.queue.Numbered entry value.sequence := by
    apply serving.numbers entry _ value present
    rw [← due]
    exact List.mem_append_right _ List.mem_cons_self
  refine ⟨inv, ⟨visited, some entry, rest, rfl, ?_, later ++ [value.sequence], ?_, ?_⟩, numbers⟩
  · rw [Option.toList_some, List.append_assoc]
    exact due
  · show u.started ++ [value.sequence] = s.started ++ (later ++ [value.sequence])
    rw [started, List.append_assoc]
  · rw [Option.toList_some]
    exact List.rel_append all (.cons number .nil)

theorem Serving.returned (serving : Serving s now u) (taken : step u .returned = some v) : Serving s now v := by
  have numbers := serving.keeps_numbers taken
  have inv := serving.inv.step taken
  obtain ⟨visited, current, rest, at_, progress⟩ := serving.progress
  simp only [step, at_] at taken
  split at taken
  · rename_i entry _ same
    cases same
    cases taken
    refine ⟨inv, ⟨_, none, _, rfl, ?_⟩, numbers⟩
    rw [Option.toList_none, List.append_nil]
    exact ⟨progress.due, progress.started⟩
  · cases taken

theorem Serving.step (serving : Serving s now u) {action : Action} (inside : Inside u action)
    (taken : Timers.step u action = some v) : Serving s now v := by
  cases action
  case reset clock => cases inside
  case run => exact serving.run taken
  case returned => exact serving.returned taken
  case handleRead now' =>
    obtain ⟨_, _, _, at_, _⟩ := serving.progress
    rw [(step_handleRead taken).1] at at_
    cases at_
  case createElsewhere =>
    apply serving.frame taken <;> cases taken <;> rfl
  all_goals
    apply serving.frame taken
    all_goals
      simp only [Timers.step] at taken
      split at taken
      · cases taken
        rfl
      · cases taken

theorem restart_after {timer : Timer} (repeats : timer.repeat_ = true) (positive : 0 < timer.interval) (now : Int) :
    now < (timer.restart now).expiration := by
  simp only [Timer.restart, repeats, positive, ↓reduceIte]
  split
  · rename_i overdue
    have next := (skipped_bounds (now - (timer.expiration + 1000 * timer.interval)) (by omega) positive).2
    simp only
    omega
  · rename_i ahead
    exact not_le.mp ahead

/-- The loop of `reset` puts back no timer that is due, and leaves the objects of the others alone. -/
theorem resetEntries_late (entries : List Entry) (q : TimerQueue) (now : Int)
    (periodic : ∀ timer value, q.heap timer = some value → value.repeat_ = true → 0 < value.interval) :
    ∀ entry ∈ (entries.foldl (TimerQueue.resetEntry now) q).timers, entry ∈ q.timers ∨ now < entry.expiration := by
  induction entries generalizing q with
  | nil => exact fun entry member => .inl member
  | cons head rest hypothesis =>
    intro entry member
    have kept : ∀ timer value, (q.resetEntry now head).heap timer = some value → value.repeat_ = true →
        0 < value.interval := by
      intro timer value present repeats
      by_cases own : timer = head.timer
      · subst own
        unfold TimerQueue.resetEntry at present
        split at present
        · exact periodic _ _ present repeats
        · rename_i old before
          split at present
          · rename_i again
            rw [(Keeps.insertTimer _ _ _).heap] at present
            simp only [Function.update_self, Option.some.injEq] at present
            subst present
            obtain ⟨expiration, restarted⟩ := restart_keeps old now
            rw [restarted]
            show 0 < old.interval
            exact periodic _ _ before again.1
          · rw [delete_eq before] at present
            simp only [Function.update_self] at present
            cases present
      · rw [(resetEntry_turn now q head).frame.2.2 timer own] at present
        exact periodic _ _ present repeats
    cases hypothesis (q.resetEntry now head) kept entry member with
    | inr late => exact .inr late
    | inl before =>
      unfold TimerQueue.resetEntry at before
      split at before
      · exact .inl before
      · rename_i value present
        split at before
        · rename_i again
          rw [(insertTimer_timerfd _ _ _).1] at before
          cases OrderedSet.mem_insert.mp before with
          | inl new =>
            rw [new]
            exact .inr (restart_after again.1 (periodic _ _ present again.1) now)
          | inr old => exact .inl old
        · rw [delete_eq present] at before
          exact .inl before

/-- An entry was put into the set by a callback of the batch, and has stayed. -/
def AddedBy (s opened : State) (now : Int) (u : State) (entry : Entry) : Prop :=
  ∃ v w clock, ∃ running ∈ s.queue.due now, Reaches Timers.step Inside opened v ∧
    v.batch.bind Batch.current = some running ∧ Timers.step v (.addTimerInLoop entry.timer clock) = some w ∧
    entry ∈ w.queue.timers ∧ Reaches Timers.step Inside w u ∧ w.queue.heap entry.timer = u.queue.heap entry.timer

theorem AddedBy.next {opened : State} {entry : Entry} (added : AddedBy s opened now u entry) {action : Action}
    (inside : Inside u action) (taken : Timers.step u action = some v)
    (heap : v.queue.heap entry.timer = u.queue.heap entry.timer) : AddedBy s opened now v entry := by
  obtain ⟨first, w, clock, running, due, reached, current, inserted, member, stayed, object⟩ := added
  exact ⟨first, w, clock, running, due, reached, current, inserted, member, stayed.next inside taken,
    object.trans heap.symm⟩

/-- Inside `handleRead` a timer gets into the set by `addTimerInLoop` only, and an entry that stays keeps its
    object. -/
theorem Serving.inserts (serving : Serving s now u) {action : Action} (inside : Inside u action)
    (taken : Timers.step u action = some v) {entry : Entry} (member : entry ∈ v.queue.timers) :
    entry ∈ u.queue.timers ∧ v.queue.heap entry.timer = u.queue.heap entry.timer ∨
      ∃ clock, action = .addTimerInLoop entry.timer clock ∧ u.userCode := by
  have rep := serving.inv.rep
  cases action
  case reset clock => cases inside
  case handleRead now' =>
    obtain ⟨_, _, _, at_, _⟩ := serving.progress
    rw [(step_handleRead taken).1] at at_
    cases at_
  case run =>
    obtain ⟨_, _, _, _, _, _, _, rfl⟩ := serving.inv.step_run taken
    exact .inl ⟨member, rfl⟩
  case cancelInLoop id clock => exact .inl ((serving.inv.cancel_spares taken).2.2 entry member)
  all_goals simp only [Timers.step] at taken
  case createElsewhere =>
    cases taken
    exact .inl ⟨member, rfl⟩
  case create timer when interval =>
    split at taken
    · rename_i fresh
      cases taken
      obtain ⟨value, present, _⟩ := rep.live entry (.inl member)
      have other : entry.timer ≠ timer := by
        intro same
        rw [same, fresh.1] at present
        cases present
      exact .inl ⟨member, Function.update_of_ne other _ _⟩
    · cases taken
  case addTimerInLoop timer clock =>
    split at taken
    · rename_i may
      cases taken
      obtain ⟨value, present⟩ := rep.loose timer may.1
      rw [(rep.addTimerInLoop_timerfd may.1 present clock).1] at member
      cases OrderedSet.mem_insert.mp member with
      | inl new =>
        rw [new]
        exact .inr ⟨clock, rfl, may.2⟩
      | inr old => exact .inl ⟨old, congrFun (Keeps.addTimerInLoop _ _ _).heap _⟩
    · cases taken
  case returned =>
    split at taken
    · cases taken
      exact .inl ⟨member, rfl⟩
    · cases taken

theorem Serving.running (serving : Serving s now u) (may : u.userCode) :
    ∃ running ∈ s.queue.due now, u.batch.bind Batch.current = some running := by
  obtain ⟨visited, current, rest, at_, progress⟩ := serving.progress
  obtain ⟨running, rfl⟩ := Option.isSome_iff_exists.mp (may _ at_)
  refine ⟨running, ?_, by rw [at_]; rfl⟩
  rw [← progress.due]
  simp

/-- What a run inside `handleRead` keeps about the timers that are due: they came in through a callback. -/
structure Filled (s opened : State) (now : Int) (u : State) : Prop where
  reached : Reaches Timers.step Inside opened u
  serving : Serving s now u
  added : ∀ entry ∈ u.queue.timers, entry.expiration ≤ now → AddedBy s opened now u entry

theorem Filled.step {opened : State} (filled : Filled s opened now u) {action : Action} (inside : Inside u action)
    (taken : Timers.step u action = some v) : Filled s opened now v := by
  refine ⟨filled.reached.next inside taken, filled.serving.step inside taken, ?_⟩
  intro entry member due
  cases filled.serving.inserts inside taken member with
  | inl old => exact (filled.added entry old.1 due).next inside taken old.2
  | inr new =>
    obtain ⟨clock, rfl, may⟩ := new
    obtain ⟨running, listed, current⟩ := filled.serving.running may
    exact ⟨u, v, clock, running, listed, filled.reached, current, taken, member, .refl v, rfl⟩

theorem Filled.begin (inv : Inv s) (taken : Timers.step s (.handleRead now) = some t) : Filled s t now t := by
  refine ⟨.refl t, Serving.begin inv taken, ?_⟩
  intro entry member due
  obtain ⟨_, rfl⟩ := step_handleRead taken
  have above : entry ∈ (s.queue.readTimerfd now).timers.above (sentry now) := by
    rw [← getExpired_timers]
    exact member
  obtain ⟨inside, beyond⟩ := OrderedSet.mem_above above
  obtain ⟨value, present, _⟩ := inv.rep.live entry (.inl inside)
  have late := sentry_late (inv.rep.numbered _ _ present).2 beyond
  omega

theorem Filled.reset {opened : State} {clock : Int} (filled : Filled s opened now u)
    (periodic : ∀ timer value, u.queue.heap timer = some value → value.repeat_ = true → 0 < value.interval)
    (taken : Timers.step u (.reset clock) = some t) :
    (∃ later, t.started = s.started ++ later ∧ List.Forall₂ s.queue.Numbered (s.queue.due now) later) ∧
    ∀ entry ∈ t.queue.timers, entry.expiration ≤ now →
      AddedBy s opened now u entry ∧ t.queue.heap entry.timer = u.queue.heap entry.timer := by
  obtain ⟨visited, current, rest, at_, progress⟩ := filled.serving.progress
  have rep := filled.serving.inv.rep
  simp only [Timers.step, at_] at taken
  split at taken
  · rename_i same
    cases same
    cases taken
    have due := progress.due
    rw [Option.toList_none, List.append_nil, List.append_nil] at due
    have parked : Rep u.queue u.numCreated u.incoming visited := by
      simpa [State.inBatch, at_, Batch.expired] using rep
    have ended : Rep { u.queue with callingExpiredTimers := false } u.numCreated u.incoming visited :=
      parked.congr rfl rfl rfl rfl
    constructor
    · obtain ⟨later, started, all⟩ := progress.started
      rw [Option.toList_none, List.append_nil, due] at all
      exact ⟨later, started, all⟩
    · intro entry member early
      rw [(ended.reset_arms now clock).1] at member
      cases resetEntries_late visited { u.queue with callingExpiredTimers := false } now periodic entry member with
      | inr late => omega
      | inl old =>
        refine ⟨filled.added entry old early, ?_⟩
        -- its address is not one of the batch
        have apart : ∀ batched ∈ visited, batched.timer ≠ entry.timer := by
          intro batched listed same
          have inBatch : batched ∈ u.inBatch := by simp [State.inBatch, at_, Batch.expired, listed]
          exact filled.serving.inv.batch_apart inBatch old same.symm
        simp only [(reset_frame _ _ _ _).heap]
        exact turns_apart (resetEntry_turn now) visited { u.queue with callingExpiredTimers := false } apart
  · cases taken

end Hvnetpp.Timers
