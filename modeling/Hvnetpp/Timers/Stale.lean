import Hvnetpp.Timers.Objects
import Hvnetpp.Timers.Ownership

namespace Hvnetpp.Timers

open Machine

variable {q : TimerQueue} {s t : State} {id : TimerId} {numCreated : Nat} {incoming : List Nat} {batch : List Entry}
  {noted : OrderedSet ActiveTimer}

@[simp] theorem rearm_activeTimers (q : TimerQueue) (clock : Int) : (q.rearm clock).activeTimers = q.activeTimers := by
  unfold TimerQueue.rearm
  split
  · rfl
  · split <;> rfl

@[simp] theorem insertTimer_activeTimers (q : TimerQueue) (timer : Nat) (value : Timer) :
    (insertTimer q timer value).activeTimers = q.activeTimers.insert ⟨timer, value.sequence⟩ := by
  simp only [insertTimer, TimerQueue.check]
  split <;> split <;> split <;> split <;> rfl

def TimerQueue.noting (q : TimerQueue) (noted : OrderedSet ActiveTimer) : TimerQueue :=
  { q with cancelingTimers := noted }

theorem removeActive_eq {value : Timer} (present : q.heap id.timer = some value)
    (member : (⟨value.expiration, id.timer⟩ : Entry) ∈ q.timers) (clock : Int) :
    q.removeActive id value clock =
      let r := { q with
        heap := Function.update q.heap id.timer none
        timers := q.timers.erase ⟨value.expiration, id.timer⟩
        activeTimers := q.activeTimers.erase id }
      if q.timers.first.map Entry.timer = some id.timer then r.rearm clock else r := by
  have some_ : (q.heap id.timer).isSome = true := by rw [present]; rfl
  simp only [TimerQueue.removeActive, TimerQueue.delete, check_of member, check_of some_, decide_eq_true_eq]

/-- What `cancelInLoop` makes of the sets: the timer with the address and the number of the id goes, or the id
    is noted at most. -/
theorem Rep.cancelInLoop_sets (rep : Rep q numCreated incoming batch) (id : TimerId) (clock : Int) :
    (id ∈ q.activeTimers ∧ (∃ value, q.heap id.timer = some value ∧ value.sequence = id.sequence ∧
        (q.cancelInLoop id clock).timers = q.timers.erase ⟨value.expiration, id.timer⟩) ∧
      (q.cancelInLoop id clock).activeTimers = q.activeTimers.erase id) ∨
    (id ∉ q.activeTimers ∧ q.cancelInLoop id clock =
      q.noting (if q.callingExpiredTimers then q.cancelingTimers.insert id else q.cancelingTimers)) := by
  simp only [TimerQueue.cancelInLoop, check_of rep.size]
  by_cases active : id ∈ q.activeTimers
  · left
    obtain ⟨value, present, number, member⟩ := rep.entry_of_active active
    have timers := (rep.removeActive_timerfd present number member clock).1
    have erased : (q.removeActive id value clock).activeTimers = q.activeTimers.erase id := by
      rw [removeActive_eq present member]
      dsimp only
      split
      · exact rearm_activeTimers _ _
      · rfl
    simp only [if_pos active, present]
    exact ⟨active, ⟨value, rfl, number, timers⟩, erased⟩
  · right
    simp only [if_neg active]
    refine ⟨active, ?_⟩
    split <;> rfl

/-- `reset` puts a repeating timer back unless its own id has been noted. -/
theorem resetEntries_reschedules (now : Int) {entries : List Entry} {entry : Entry} {value : Timer}
    (member : entry ∈ entries) (distinct : (entries.map Entry.timer).Nodup)
    (present : q.heap entry.timer = some value) (repeats : value.repeat_ = true)
    (spared : (⟨entry.timer, value.sequence⟩ : TimerId) ∉ q.cancelingTimers) :
    (⟨entry.timer, value.sequence⟩ : TimerId) ∈ (entries.foldl (TimerQueue.resetEntry now) q).activeTimers := by
  have grows : ∀ (q : TimerQueue) (other : Entry) (active : TimerId), active ∈ q.activeTimers →
      active ∈ (q.resetEntry now other).activeTimers := by
    intro q other active inside
    unfold TimerQueue.resetEntry
    split
    · exact inside
    · rename_i found there
      split
      · rw [insertTimer_activeTimers]
        exact OrderedSet.mem_insert.mpr (.inr inside)
      · rw [delete_eq there]
        exact inside
  have stays : ∀ (entries : List Entry) (q : TimerQueue) (active : TimerId), active ∈ q.activeTimers →
      active ∈ (entries.foldl (TimerQueue.resetEntry now) q).activeTimers := by
    intro entries
    induction entries with
    | nil => exact fun _ _ inside => inside
    | cons head rest hypothesis => exact fun q active inside => hypothesis _ _ (grows q head active inside)
  induction entries generalizing q with
  | nil => cases member
  | cons head rest hypothesis =>
    rw [List.map_cons, List.nodup_cons] at distinct
    rw [List.foldl_cons]
    cases member with
    | head =>
      apply stays
      simp only [TimerQueue.resetEntry, present]
      rw [if_pos ⟨repeats, spared⟩, insertTimer_activeTimers, restart_sequence]
      exact OrderedSet.mem_insert.mpr (.inl rfl)
    | tail _ later =>
      have other : entry.timer ≠ head.timer := by
        intro same
        apply distinct.1
        rw [← same]
        exact List.mem_map_of_mem later
      obtain ⟨_, canceling, heap⟩ := (resetEntry_turn now q head).frame
      exact hypothesis later distinct.2 ((heap _ other).trans present) (canceling ▸ spared)

/-- An id gets into `cancelingTimers_` by a call with that id only. -/
theorem Inv.step_notes (inv : Inv s) {action : Action} (taken : Timers.step s action = some t)
    (member : id ∈ t.queue.cancelingTimers) :
    id ∈ s.queue.cancelingTimers ∨ ∃ clock, action = .cancelInLoop id clock := by
  cases action <;> simp only [Timers.step] at taken
  case createElsewhere =>
    cases taken
    exact .inl member
  case create timer when interval =>
    split at taken
    · cases taken
      exact .inl member
    · cases taken
  case addTimerInLoop timer clock =>
    split at taken
    · cases taken
      rw [(Keeps.addTimerInLoop _ _ _).canceling] at member
      exact .inl member
    · cases taken
  case cancelInLoop other clock =>
    split at taken
    · cases taken
      have canceling := (inv.rep.cancelInLoop_cases other clock).2
      cases canceling with
      | inl found =>
        rw [found.2.2] at member
        exact .inl member
      | inr absent =>
        rw [absent.2.2] at member
        split at member
        · cases OrderedSet.mem_insert.mp member with
          | inl same => exact .inr ⟨clock, by rw [same]⟩
          | inr old => exact .inl old
        · exact .inl member
    · cases taken
  case handleRead now =>
    split at taken
    · cases taken
      exact absurd member OrderedSet.not_mem_empty
    · cases taken
  case run =>
    split at taken
    · cases taken
      unfold State.startEntry at member
      split at member <;> exact .inl member
    · cases taken
  case returned =>
    split at taken
    · cases taken
      exact .inl member
    · cases taken
  case reset clock =>
    split at taken
    · cases taken
      rw [(reset_frame _ _ _ _).canceling, (turns_frame (resetEntry_turn _) _ _).2] at member
      exact .inl member
    · cases taken

theorem Inv.exec_noted (inv : Inv s) {actions : List Action} (ran : exec Timers.step s actions = some t) :
    Inv t ∧ (id ∈ t.queue.cancelingTimers →
      id ∈ s.queue.cancelingTimers ∨ ∃ clock, Action.cancelInLoop id clock ∈ actions) := by
  induction actions generalizing s with
  | nil =>
    cases ran
    exact ⟨inv, .inl⟩
  | cons action rest hypothesis =>
    rw [exec_cons, Option.bind_eq_some_iff] at ran
    obtain ⟨middle, taken, ran⟩ := ran
    obtain ⟨last, later⟩ := hypothesis (inv.step taken) ran
    refine ⟨last, ?_⟩
    intro member
    cases later member with
    | inl before =>
      cases inv.step_notes taken before with
      | inl first => exact .inl first
      | inr called =>
        obtain ⟨clock, rfl⟩ := called
        exact .inr ⟨clock, List.mem_cons_self⟩
    | inr called =>
      obtain ⟨clock, inside⟩ := called
      exact .inr ⟨clock, List.mem_cons_of_mem _ inside⟩

/-- No operation but the test in `reset` looks into `cancelingTimers_`. -/
theorem Rep.noting (rep : Rep q numCreated incoming batch) (noted : OrderedSet ActiveTimer) :
    Rep (q.noting noted) numCreated incoming batch := rep.congr rfl rfl rfl rfl

theorem rearm_noting (q : TimerQueue) (noted : OrderedSet ActiveTimer) (clock : Int) :
    (q.noting noted).rearm clock = (q.rearm clock).noting noted := by
  simp only [TimerQueue.rearm, TimerQueue.noting]
  split
  · rfl
  · split <;> rfl

theorem Rep.addTimerInLoop_noting (rep : Rep q numCreated incoming batch) (noted : OrderedSet ActiveTimer)
    {timer : Nat} (member : timer ∈ incoming) (clock : Int) :
    (q.noting noted).addTimerInLoop timer clock = (q.addTimerInLoop timer clock).noting noted := by
  obtain ⟨value, present⟩ := rep.loose timer member
  obtain ⟨listed, unlisted⟩ := rep.unlist_incoming member
  have present' : (q.noting noted).heap timer = some value := present
  have changes : (q.noting noted).earliestChanged value.expiration = q.earliestChanged value.expiration := rfl
  simp only [TimerQueue.addTimerInLoop, TimerQueue.insert, present, present', changes,
    listed.insertTimer_eq unlisted, (listed.noting noted).insertTimer_eq unlisted]
  cases q.earliestChanged value.expiration with
  | false => rfl
  | true =>
    simp only [present, present']
    rfl

theorem Rep.cancelInLoop_noting (rep : Rep q numCreated incoming batch) (noted : OrderedSet ActiveTimer)
    (id : TimerId) (clock : Int) :
    (q.noting noted).cancelInLoop id clock = (q.cancelInLoop id clock).noting
      (if id ∉ q.activeTimers ∧ q.callingExpiredTimers = true then noted.insert id else noted) := by
  have size : (q.noting noted).timers.size = (q.noting noted).activeTimers.size := rep.size
  simp only [TimerQueue.cancelInLoop, check_of rep.size, check_of size]
  by_cases active : id ∈ q.activeTimers
  · have active' : id ∈ (q.noting noted).activeTimers := active
    obtain ⟨value, present, number, member⟩ := rep.entry_of_active active
    have present' : (q.noting noted).heap id.timer = some value := present
    rw [if_pos active, if_pos active', if_neg (fun both => both.1 active)]
    simp only [present, present']
    rw [removeActive_eq present member, removeActive_eq present' member]
    dsimp only
    by_cases first : q.timers.first.map Entry.timer = some id.timer
    · have first' : (q.noting noted).timers.first.map Entry.timer = some id.timer := first
      rw [if_pos first, if_pos first', ← rearm_noting]
      rfl
    · have first' : ¬ (q.noting noted).timers.first.map Entry.timer = some id.timer := first
      rw [if_neg first, if_neg first']
      rfl
  · have active' : id ∉ (q.noting noted).activeTimers := active
    rw [if_neg active, if_neg active']
    by_cases calling : q.callingExpiredTimers = true
    · have calling' : (q.noting noted).callingExpiredTimers = true := calling
      rw [if_pos calling, if_pos calling', if_pos ⟨active, calling⟩]
      rfl
    · have calling' : ¬ (q.noting noted).callingExpiredTimers = true := calling
      rw [if_neg calling, if_neg calling', if_neg (fun both => calling both.2)]

theorem getExpired_noting (q : TimerQueue) (noted : OrderedSet ActiveTimer) (now : Int) :
    (q.noting noted).getExpired now = (q.getExpired now).noting noted := by
  have one : ∀ (q : TimerQueue) (entry : Entry),
      (q.noting noted).eraseActive entry = (q.eraseActive entry).noting noted := by
    intro q entry
    cases present : q.heap entry.timer with
    | none =>
      simp only [TimerQueue.eraseActive, TimerQueue.noting, present]
      rfl
    | some value =>
      by_cases active : (⟨entry.timer, value.sequence⟩ : ActiveTimer) ∈ q.activeTimers
      · simp only [TimerQueue.eraseActive, TimerQueue.noting, present, TimerQueue.check, active, ↓reduceIte]
      · simp only [TimerQueue.eraseActive, TimerQueue.noting, present, TimerQueue.check, active, ↓reduceIte]
        rfl
  have fold : ∀ (entries : List Entry) (q : TimerQueue),
      entries.foldl TimerQueue.eraseActive (q.noting noted) = (entries.foldl TimerQueue.eraseActive q).noting noted := by
    intro entries
    induction entries with
    | nil => exact fun _ => rfl
    | cons entry rest hypothesis =>
      intro q
      rw [List.foldl_cons, List.foldl_cons, one, hypothesis]
  exact fold _ { q with timers := q.timers.above (sentry now) }

/-- The loop of `reset` sees no difference in an id whose timer is deleted. -/
theorem Rep.resetEntries_noting (rep : Rep q numCreated incoming batch) (noted : OrderedSet ActiveTimer) (now : Int)
    (agrees : ∀ other, other ≠ id → (other ∈ noted ↔ other ∈ q.cancelingTimers)) (dead : ¬ q.Alive id.sequence) :
    batch.foldl (TimerQueue.resetEntry now) (q.noting noted) =
      (batch.foldl (TimerQueue.resetEntry now) q).noting noted := by
  induction batch generalizing q with
  | nil => rfl
  | cons entry rest hypothesis =>
    obtain ⟨value, present, _⟩ := rep.live entry (.inr List.mem_cons_self)
    obtain ⟨listed, unlisted⟩ := rep.unlist_batch
    have next := rep.turn (resetEntry_turn now q entry)
    obtain ⟨_, canceling, _⟩ := (resetEntry_turn now q entry).frame
    have own : (⟨entry.timer, value.sequence⟩ : ActiveTimer) ≠ id := by
      intro same
      exact dead ⟨entry.timer, value, present, congrArg ActiveTimer.sequence same⟩
    have one : (q.noting noted).resetEntry now entry = (q.resetEntry now entry).noting noted := by
      have there : (q.noting noted).heap entry.timer = some value := present
      have same : (⟨entry.timer, value.sequence⟩ : ActiveTimer) ∈ (q.noting noted).cancelingTimers ↔
        (⟨entry.timer, value.sequence⟩ : ActiveTimer) ∈ q.cancelingTimers := agrees _ own
      simp only [TimerQueue.resetEntry, present, there, same, delete_eq present, delete_eq there]
      split
      · have changed := listed.rewrite unlisted present (restart_sequence value now)
        rw [changed.insertTimer_eq unlisted]
        exact (changed.noting noted).insertTimer_eq unlisted
      · rfl
    rw [List.foldl_cons, List.foldl_cons, one]
    apply hypothesis next
    · rw [canceling]
      exact agrees
    · intro alive
      obtain ⟨timer, found, after, number⟩ := alive
      obtain ⟨old, before, same⟩ := (resetEntry_turn now q entry).numbers after
      exact dead ⟨timer, old, before, same.trans number⟩

theorem Rep.reset_noting (rep : Rep q numCreated incoming batch) (now clock : Int)
    (agrees : ∀ other, other ≠ id → (other ∈ noted ↔ other ∈ q.cancelingTimers)) (dead : ¬ q.Alive id.sequence) :
    (q.noting noted).reset batch now clock = (q.reset batch now clock).noting noted := by
  simp only [TimerQueue.reset, rep.resetEntries_noting noted now agrees dead]
  generalize batch.foldl (TimerQueue.resetEntry now) q = r
  have timers : (r.noting noted).timers = r.timers := rfl
  have heap : (r.noting noted).heap = r.heap := rfl
  rw [timers]
  cases r.timers.first with
  | none => rfl
  | some earliest =>
    simp only [heap]
    cases r.heap earliest.timer with
    | none => rfl
    | some value =>
      dsimp only
      split <;> rfl

def State.noting (s : State) (noted : OrderedSet ActiveTimer) : State := { s with queue := s.queue.noting noted }

/-- Everything but `cancelingTimers_`: the objects, the scheduled timers, the descriptor, the batch and the
    callbacks started. -/
def State.schedule (s : State) : State := s.noting ∅

/-- The timer of `id` is deleted, and `noted` differs from `cancelingTimers_` in `id` at most. -/
structure Ghost (id : TimerId) (s : State) (noted : OrderedSet ActiveTimer) : Prop where
  inv : Inv s
  created : id.sequence ≤ s.numCreated
  dead : ¬ s.queue.Alive id.sequence
  agrees : ∀ other, other ≠ id → (other ∈ noted ↔ other ∈ s.queue.cancelingTimers)

/-- What `cancelingTimers_` becomes in a step. -/
def State.notes (s : State) (noted : OrderedSet ActiveTimer) : Action → OrderedSet ActiveTimer
  | .cancelInLoop id _ =>
    if id ∉ s.queue.activeTimers ∧ s.queue.callingExpiredTimers = true then noted.insert id else noted
  | .handleRead _ => ∅
  | _ => noted

theorem Ghost.step_noting (ghost : Ghost id s noted) (action : Action) :
    step (s.noting noted) action = (step s action).map fun next => next.noting (s.notes noted action) := by
  have rep := ghost.inv.rep
  have batch : (s.noting noted).batch = s.batch := rfl
  cases action <;> simp only [step]
  case create timer when interval =>
    by_cases may : s.queue.heap timer = none ∧ 0 < timer ∧ timer < uintptrMax
    · have may' : (s.noting noted).queue.heap timer = none ∧ 0 < timer ∧ timer < uintptrMax := may
      rw [if_pos may, if_pos may']
      rfl
    · have may' : ¬ ((s.noting noted).queue.heap timer = none ∧ 0 < timer ∧ timer < uintptrMax) := may
      rw [if_neg may, if_neg may']
      rfl
  case createElsewhere => rfl
  case addTimerInLoop timer clock =>
    by_cases may : timer ∈ s.incoming ∧ s.userCode
    · have may' : timer ∈ (s.noting noted).incoming ∧ (s.noting noted).userCode := may
      rw [if_pos may, if_pos may']
      simp only [State.noting, rep.addTimerInLoop_noting noted may.1 clock, State.notes, Option.map_some]
    · have may' : ¬ (timer ∈ (s.noting noted).incoming ∧ (s.noting noted).userCode) := may
      rw [if_neg may, if_neg may']
      rfl
  case cancelInLoop other clock =>
    by_cases may : s.userCode
    · have may' : (s.noting noted).userCode := may
      rw [if_pos may, if_pos may']
      simp only [State.noting, rep.cancelInLoop_noting noted other clock, State.notes, Option.map_some]
    · have may' : ¬ (s.noting noted).userCode := may
      rw [if_neg may, if_neg may']
      rfl
  case handleRead now =>
    rw [batch]
    cases s.batch with
    | some _ => rfl
    | none =>
      have read : ((s.noting noted).queue.readTimerfd now).getExpired now =
          ((s.queue.readTimerfd now).getExpired now).noting noted :=
        getExpired_noting (s.queue.readTimerfd now) noted now
      simp only [read]
      rfl
  case run =>
    rw [batch]
    split
    · rename_i entry rest at_
      simp only [State.startEntry]
      have heap : (s.noting noted).queue.heap entry.timer = s.queue.heap entry.timer := rfl
      rw [heap]
      cases s.queue.heap entry.timer <;> rfl
    · rfl
  case returned =>
    rw [batch]
    split <;> rfl
  case reset clock =>
    rw [batch]
    split
    · rename_i now visited at_
      have listed : Rep s.queue s.numCreated s.incoming visited := by
        simpa [State.inBatch, at_, Batch.expired] using rep
      have ended : Rep { s.queue with callingExpiredTimers := false } s.numCreated s.incoming visited :=
        listed.congr rfl rfl rfl rfl
      have reset := ended.reset_noting now clock ghost.agrees ghost.dead
      exact congrArg (fun queue => some { s with queue := queue, batch := none }) reset
    · rfl

theorem Ghost.step (ghost : Ghost id s noted) {action : Action} (taken : Timers.step s action = some t) :
    Ghost id t (s.notes noted action) := by
  have aged := ghost.inv.ages taken
  refine ⟨ghost.inv.step taken, ghost.created.trans aged.created, ?_, ?_⟩
  · exact ghost.inv.buried ((Reaches.refl s).next trivial taken) ghost.created ghost.dead
  · intro other different
    have same := ghost.agrees other different
    cases action <;> simp only [Timers.step] at taken
    case createElsewhere =>
      cases taken
      exact same
    case create timer when interval =>
      split at taken
      · cases taken
        exact same
      · cases taken
    case addTimerInLoop timer clock =>
      split at taken
      · cases taken
        rw [(Keeps.addTimerInLoop _ _ _).canceling]
        exact same
      · cases taken
    case cancelInLoop cancelled clock =>
      split at taken
      · cases taken
        -- the same id is noted in both, or none
        cases (ghost.inv.rep.cancelInLoop_cases cancelled clock).2 with
        | inl found =>
          simp only [State.notes, found.2.2, found.1, not_true, false_and, ↓reduceIte]
          exact same
        | inr absent =>
          simp only [State.notes, absent.2.2, absent.1, not_false_iff, true_and]
          split
          · simp only [OrderedSet.mem_insert, same]
          · exact same
      · cases taken
    case handleRead now =>
      split at taken
      · cases taken
        exact Iff.rfl
      · cases taken
    case run =>
      split at taken
      · cases taken
        unfold State.startEntry
        split <;> exact same
      · cases taken
    case returned =>
      split at taken
      · cases taken
        exact same
      · cases taken
    case reset clock =>
      split at taken
      · cases taken
        rw [(reset_frame _ _ _ _).canceling, (turns_frame (resetEntry_turn _) _ _).2]
        exact same
      · cases taken

/-- Two runs by the same actions agree in everything else. -/
theorem Ghost.exec (ghost : Ghost id s noted) (actions : List Action) :
    (Machine.exec Timers.step (s.noting noted) actions).map State.schedule =
      (Machine.exec Timers.step s actions).map State.schedule := by
  induction actions generalizing s noted with
  | nil => rfl
  | cons action rest hypothesis =>
    rw [exec_cons, exec_cons, ghost.step_noting action]
    cases taken : Timers.step s action with
    | none => rfl
    | some next => exact hypothesis (ghost.step taken)

theorem Inv.stale (inv : Inv s) {clock : Int} (created : id.sequence ≤ s.numCreated)
    (dead : ¬ s.queue.Alive id.sequence) (cancelled : Timers.step s (.cancelInLoop id clock) = some t)
    (actions : List Action) :
    (exec Timers.step t actions).map State.schedule = (exec Timers.step s actions).map State.schedule := by
  obtain ⟨_, rfl⟩ := step_cancelInLoop cancelled
  cases inv.rep.cancelInLoop_sets id clock with
  | inl found =>
    obtain ⟨_, ⟨value, present, number, _⟩, _⟩ := found
    exact absurd ⟨id.timer, value, present, number⟩ dead
  | inr absent =>
    rw [absent.2]
    have ghost : Ghost id s (if s.queue.callingExpiredTimers then s.queue.cancelingTimers.insert id
        else s.queue.cancelingTimers) := by
      refine ⟨inv, created, dead, ?_⟩
      intro other different
      split
      · simp only [OrderedSet.mem_insert, different, false_or]
      · exact Iff.rfl
    exact ghost.exec actions

/-- A timer whose object has another number keeps its place and its object. -/
theorem Inv.cancel_spares (inv : Inv s) {clock : Int} (cancelled : Timers.step s (.cancelInLoop id clock) = some t) :
    (∀ entry ∈ s.queue.timers, entry ∉ t.queue.timers →
      ∃ value, s.queue.heap entry.timer = some value ∧ id = ⟨entry.timer, value.sequence⟩) ∧
    (∀ active ∈ s.queue.activeTimers, active ∉ t.queue.activeTimers → active = id) ∧
    ∀ entry ∈ t.queue.timers, entry ∈ s.queue.timers ∧ t.queue.heap entry.timer = s.queue.heap entry.timer := by
  have next := inv.step cancelled
  obtain ⟨_, rfl⟩ := step_cancelInLoop cancelled
  cases inv.rep.cancelInLoop_sets id clock with
  | inl found =>
    obtain ⟨_, ⟨value, present, number, timers⟩, activeTimers⟩ := found
    simp only [timers, activeTimers, OrderedSet.mem_erase, not_and]
    refine ⟨?_, ?_, ?_⟩
    · intro entry member gone
      have own : entry = ⟨value.expiration, id.timer⟩ := by
        by_contra different
        exact gone different member
      subst own
      exact ⟨value, present, by rw [number]⟩
    · intro other member gone
      by_contra different
      exact gone different member
    · intro entry member
      refine ⟨member.2, ?_⟩
      obtain ⟨kept, there, _⟩ := next.rep.live entry (.inl (by rw [timers]; exact OrderedSet.mem_erase.mpr member))
      exact there.trans (inv.rep.cancelInLoop_present there).symm
  | inr absent =>
    rw [absent.2]
    refine ⟨?_, ?_, ?_⟩
    · exact fun entry member gone => absurd member gone
    · exact fun active member gone => absurd member gone
    · exact fun entry member => ⟨member, rfl⟩

theorem Inv.reset_reschedules (inv : Inv s) {clock : Int} (taken : Timers.step s (.reset clock) = some t)
    {entry : Entry} (listed : entry ∈ s.inBatch) {value : Timer} (present : s.queue.heap entry.timer = some value)
    (repeats : value.repeat_ = true) (spared : (⟨entry.timer, value.sequence⟩ : TimerId) ∉ s.queue.cancelingTimers) :
    (⟨entry.timer, value.sequence⟩ : TimerId) ∈ t.queue.activeTimers := by
  simp only [Timers.step] at taken
  split at taken
  · rename_i now visited at_
    cases taken
    have distinct := inv.rep.distinct
    simp only [State.inBatch, at_, Batch.expired, Option.toList_none, List.append_nil] at listed distinct
    have apart := (List.nodup_append.mp (List.nodup_append.mp distinct).2.1).1
    have back := resetEntries_reschedules (q := { s.queue with callingExpiredTimers := false }) now listed apart
      present repeats spared
    simp only [TimerQueue.reset]
    split
    · exact back
    · split
      · exact back
      · split <;> exact back
  · cases taken

/-- `cancelInLoop(id)` takes away no timer but the one created with the number of `id`, and `reset` puts back
    every repeating timer whose own id was not cancelled. If the timer of `id` is deleted, nothing but
    `cancelingTimers_` shows that the call was made. -/
theorem cancel_harms_no_other {numCreated : Nat} {before : List Action} {clock : Int}
    (ran : exec step (State.initial numCreated) before = some s)
    (cancelled : step s (.cancelInLoop id clock) = some t) :
    (∀ entry ∈ s.queue.timers, entry ∉ t.queue.timers →
      ∃ value, s.queue.heap entry.timer = some value ∧ id = ⟨entry.timer, value.sequence⟩) ∧
    (∀ active ∈ s.queue.activeTimers, active ∉ t.queue.activeTimers → active = id) ∧
    (∀ entry ∈ t.queue.timers, entry ∈ s.queue.timers ∧ t.queue.heap entry.timer = s.queue.heap entry.timer) ∧
    (∀ after u reading v, exec step t after = some u → step u (.reset reading) = some v →
      ∀ entry ∈ u.inBatch, ∀ value, u.queue.heap entry.timer = some value → value.repeat_ = true →
      (⟨entry.timer, value.sequence⟩ : TimerId) ∉ v.queue.activeTimers → ⟨entry.timer, value.sequence⟩ = id ∨
        ∃ other, Action.cancelInLoop ⟨entry.timer, value.sequence⟩ other ∈ before ++ after) ∧
    (id.sequence ≤ s.numCreated → ¬ s.queue.Alive id.sequence →
      ∀ after, (exec step t after).map State.schedule = (exec step s after).map State.schedule) := by
  have inv := reachable_inv (exec_reaches ran)
  obtain ⟨timers, active, others⟩ := inv.cancel_spares cancelled
  refine ⟨timers, active, others, ?_, fun created dead => inv.stale created dead cancelled⟩
  intro after u reading v further taken entry listed value present repeats refused
  have all : exec step (State.initial numCreated) (before ++ Action.cancelInLoop id clock :: after) = some u := by
    rw [exec_append, ran, Option.bind_some, exec_cons, cancelled, Option.bind_some]
    exact further
  obtain ⟨last, noted⟩ := (Inv.initial numCreated).exec_noted all
  have member : (⟨entry.timer, value.sequence⟩ : TimerId) ∈ u.queue.cancelingTimers := by
    by_contra spared
    exact refused (last.reset_reschedules taken listed present repeats spared)
  cases noted member with
  | inl start => exact absurd start OrderedSet.not_mem_empty
  | inr called =>
    obtain ⟨other, call⟩ := called
    cases List.mem_append.mp call with
    | inl earlier => exact .inr ⟨other, List.mem_append_left _ earlier⟩
    | inr later =>
      cases later with
      | head => exact .inl rfl
      | tail _ later => exact .inr ⟨other, List.mem_append_right _ later⟩

/-- A timer has run and is deleted, and the next one is given its address. -/
def reusedAddress : List Action :=
  [.create 8 10 0, .addTimerInLoop 8 1, .handleRead 30, .run, .returned, .reset 31, .create 8 100 0, .addTimerInLoop 8 32]

theorem cancel_harms_no_other_reused : ∃ s t : State, step s (.cancelInLoop ⟨8, 1⟩ 33) = some t ∧
    s.queue.timers.elems = [⟨100, 8⟩] ∧ (⟨100, 8⟩ : Entry) ∈ t.queue.timers ∧
    ∀ after, (exec step t after).map State.schedule = (exec step s after).map State.schedule := by
  have ran : ((exec step (State.initial 0) reusedAddress).map fun s => ((s.queue.timers.elems, s.incoming),
      (s.numCreated, s.batch), s.queue.heap 8)) = some (([⟨100, 8⟩], []), (2, none), some (.create 100 0 2)) := by decide
  obtain ⟨s, reached, facts⟩ := Option.map_eq_some_iff.mp ran
  simp only [Prod.mk.injEq] at facts
  obtain ⟨⟨timers, incoming⟩, ⟨created, batch⟩, present⟩ := facts
  have inside : ∀ entry, entry ∈ s.queue.timers ↔ entry = ⟨100, 8⟩ := by
    intro entry
    rw [← OrderedSet.mem_elems, timers, List.mem_singleton]
  have cancelled : step s (.cancelInLoop ⟨8, 1⟩ 33) = some { s with queue := s.queue.cancelInLoop ⟨8, 1⟩ 33 } := by
    apply if_pos
    intro found at_
    rw [batch] at at_
    cases at_
  have dead : ¬ s.queue.Alive 1 := by
    rintro ⟨timer, value, there, number⟩
    have listed := listed_iff.mp (reachable_owned (exec_reaches reached) timer value there)
    rw [State.inBatch, batch, incoming] at listed
    rcases listed with ⟨entry, member, rfl⟩ | ⟨entry, member, _⟩ | member
    · rw [(inside entry).mp member, present] at there
      cases there
      cases number
    · cases member
    · cases member
  obtain ⟨spared, _, _, _, stale⟩ := cancel_harms_no_other reached cancelled
  refine ⟨s, _, cancelled, timers, ?_, stale (by rw [created]; decide) dead⟩
  by_contra gone
  obtain ⟨value, there, same⟩ := spared ⟨100, 8⟩ ((inside _).mpr rfl) gone
  rw [present] at there
  cases there
  cases same

end Hvnetpp.Timers
