import Mathlib.Algebra.Order.Ring.Int
import Hvnetpp.Timers.History

namespace Hvnetpp.Timers.Signed64

open Machine

/-- What a signed 64-bit integer keeps of a value. -/
def wrap (x : Int) : Int := x.bmod (2 ^ 64)

/-- Microseconds in the unit of `steady_clock`. -/
def nanoseconds (delta : Int) : Int := wrap (delta * 1000)

def restart (timer : Timer) (now : Int) : Timer :=
  if timer.repeat_ then
    if 0 < timer.interval then
      let expiration := wrap (timer.expiration + nanoseconds timer.interval)
      if expiration ≤ now then
        let overdue := (wrap (now - expiration)).tdiv 1000
        let skipped := wrap (overdue.tdiv timer.interval + 1)
        { timer with expiration := wrap (expiration + nanoseconds (wrap (timer.interval * skipped))) }
      else { timer with expiration := expiration }
    else { timer with expiration := now }
  else { timer with expiration := 0 }

def howMuchTimeFromNow (when clock : Int) : Timespec :=
  let microseconds := (wrap (when - clock)).tdiv 1000
  let microseconds := if microseconds < 100 then 100 else microseconds
  { tv_sec := microseconds.tdiv 1000000, tv_nsec := microseconds.tmod 1000000 * 1000 }

def resetTimerfd (q : TimerQueue) (expiration clock : Int) : TimerQueue :=
  { q with timerfd := settime (howMuchTimeFromNow expiration clock) clock }

def addTimerInLoop (q : TimerQueue) (timer : Nat) (clock : Int) : TimerQueue :=
  match q.insert timer with
  | (q, true) =>
    match q.heap timer with
    | none => q.fail
    | some value => resetTimerfd q value.expiration clock
  | (q, false) => q

def rearm (q : TimerQueue) (clock : Int) : TimerQueue :=
  match q.timers.first with
  | none => q.disarmTimerfd
  | some earliest =>
    match q.heap earliest.timer with
    | none => q.fail
    | some value => resetTimerfd q value.expiration clock

def removeActive (q : TimerQueue) (id : TimerId) (value : Timer) (clock : Int) : TimerQueue :=
  let earliestChanged := decide (q.timers.first.map Entry.timer = some id.timer)
  let entry : Entry := ⟨value.expiration, id.timer⟩
  let q := { q.check (entry ∈ q.timers) with timers := q.timers.erase entry }
  let q := { q.delete id.timer with activeTimers := q.activeTimers.erase id }
  if earliestChanged then rearm q clock else q

def cancelInLoop (q : TimerQueue) (id : TimerId) (clock : Int) : TimerQueue :=
  let q := q.check (q.timers.size = q.activeTimers.size)
  if id ∈ q.activeTimers then
    match q.heap id.timer with
    | none => q.fail
    | some value => removeActive q id value clock
  else if q.callingExpiredTimers then { q with cancelingTimers := q.cancelingTimers.insert id }
  else q

def resetEntry (now : Int) (q : TimerQueue) (entry : Entry) : TimerQueue :=
  match q.heap entry.timer with
  | none => q.fail
  | some value =>
    if value.repeat_ ∧ (⟨entry.timer, value.sequence⟩ : ActiveTimer) ∉ q.cancelingTimers then
      let restarted := restart value now
      insertTimer { q with heap := Function.update q.heap entry.timer (some restarted) } entry.timer restarted
    else q.delete entry.timer

def reset (q : TimerQueue) (expired : List Entry) (now clock : Int) : TimerQueue :=
  let q := expired.foldl (resetEntry now) q
  match q.timers.first with
  | none => q
  | some earliest =>
    match q.heap earliest.timer with
    | none => q.fail
    | some value => if value.expiration ≠ 0 then resetTimerfd q value.expiration clock else q

/-- The steps of the queue in the arithmetic of the compiled code. Those that only compare time points are the
    ones of the unbounded arithmetic. -/
def step (s : State) : Action → Option State
  | .addTimerInLoop timer clock =>
    if timer ∈ s.incoming ∧ s.userCode then
      some { s with queue := addTimerInLoop s.queue timer clock, incoming := s.incoming.erase timer }
    else none
  | .cancelInLoop id clock =>
    if s.userCode then some { s with queue := cancelInLoop s.queue id clock } else none
  | .reset clock =>
    match s.batch with
    | some ⟨now, visited, none, []⟩ =>
      some { s with
        queue := reset { s.queue with callingExpiredTimers := false } visited now clock
        batch := none }
    | _ => none
  | action => Timers.step s action

variable {q r : TimerQueue} {s t : State} {numCreated : Nat} {incoming : List Nat} {batch : List Entry}

/-- The arithmetic decides when the descriptor fires; the sets and the objects do not depend on it. -/
def SameButArmed (q r : TimerQueue) : Prop := ∃ timerfd, r = { q with timerfd := timerfd }

theorem SameButArmed.refl (q : TimerQueue) : SameButArmed q q := ⟨q.timerfd, rfl⟩

theorem SameButArmed.rep (same : SameButArmed q r) (rep : Rep q numCreated incoming batch) :
    Rep r numCreated incoming batch := by
  obtain ⟨timerfd, rfl⟩ := same
  exact rep.congr rfl rfl rfl rfl

theorem SameButArmed.keeps (same : SameButArmed q r) : Keeps q r := by
  obtain ⟨timerfd, rfl⟩ := same
  exact ⟨rfl, rfl, rfl⟩

theorem addTimerInLoop_same (q : TimerQueue) (timer : Nat) (clock : Int) :
    SameButArmed (q.addTimerInLoop timer clock) (addTimerInLoop q timer clock) := by
  unfold TimerQueue.addTimerInLoop addTimerInLoop
  cases q.insert timer with
  | mk inserted earliestChanged =>
    cases earliestChanged with
    | false => exact .refl _
    | true =>
      dsimp only
      cases inserted.heap timer with
      | none => exact .refl _
      | some value => exact ⟨_, rfl⟩

theorem rearm_same (q : TimerQueue) (clock : Int) : SameButArmed (q.rearm clock) (rearm q clock) := by
  unfold TimerQueue.rearm rearm
  cases q.timers.first with
  | none => exact .refl _
  | some earliest =>
    dsimp only
    cases q.heap earliest.timer with
    | none => exact .refl _
    | some value => exact ⟨_, rfl⟩

theorem removeActive_same (q : TimerQueue) (id : TimerId) (value : Timer) (clock : Int) :
    SameButArmed (q.removeActive id value clock) (removeActive q id value clock) := by
  unfold TimerQueue.removeActive removeActive
  cases decide (q.timers.first.map Entry.timer = some id.timer) with
  | false => exact .refl _
  | true => exact rearm_same _ _

theorem cancelInLoop_same (q : TimerQueue) (id : TimerId) (clock : Int) :
    SameButArmed (q.cancelInLoop id clock) (cancelInLoop q id clock) := by
  unfold TimerQueue.cancelInLoop cancelInLoop
  generalize q.check (q.timers.size = q.activeTimers.size) = p
  by_cases active : id ∈ p.activeTimers
  · simp only [if_pos active]
    cases p.heap id.timer with
    | none => exact .refl _
    | some value => exact removeActive_same p id value clock
  · simp only [if_neg active]
    exact .refl _

theorem restart_sequence (timer : Timer) (now : Int) : (restart timer now).sequence = timer.sequence := by
  unfold restart
  split
  · split
    · dsimp only
      split <;> rfl
    · rfl
  · rfl

theorem resetEntry_turn (now : Int) (q : TimerQueue) (entry : Entry) : Turn q entry (resetEntry now q entry) := by
  unfold resetEntry
  split
  · rename_i absent
    exact .dangling absent
  · rename_i value present
    split
    · exact .restarted present (restart_sequence value now)
    · exact .deleted present

theorem reset_same (rep : Rep q numCreated incoming batch) (now clock : Int) :
    SameButArmed (batch.foldl (resetEntry now) q) (reset q batch now clock) := by
  have folded := rep.turns (resetEntry_turn now)
  unfold reset
  dsimp only
  split
  · exact .refl _
  · rename_i earliest first
    obtain ⟨value, present, _⟩ := folded.live earliest (.inl (OrderedSet.mem_first first))
    simp only [present]
    split
    · exact ⟨_, rfl⟩
    · exact .refl _

/-- The clock reading that a step takes. -/
def reading : Action → Option Int
  | .addTimerInLoop _ clock | .cancelInLoop _ clock | .reset clock | .handleRead clock => some clock
  | .create _ _ _ | .createElsewhere | .run | .returned => none

/-- The steps that compute no time. -/
def Timeless : Action → Prop
  | .addTimerInLoop _ _ | .cancelInLoop _ _ | .reset _ => False
  | .create _ _ _ | .createElsewhere | .handleRead _ | .run | .returned => True

theorem step_timeless {action : Action} (taken : step s action = some t) (timeless : Timeless action) :
    Timers.step s action = some t := by
  rw [← taken]
  cases action
  case addTimerInLoop => cases timeless
  case cancelInLoop => cases timeless
  case reset => cases timeless
  all_goals rfl

theorem step_addTimerInLoop {timer : Nat} {clock : Int} (taken : step s (.addTimerInLoop timer clock) = some t) :
    timer ∈ s.incoming ∧
    t = { s with queue := addTimerInLoop s.queue timer clock, incoming := s.incoming.erase timer } := by
  obtain ⟨may, taken⟩ := Option.ite_none_right_eq_some.mp taken
  cases taken
  exact ⟨may.1, rfl⟩

theorem step_cancelInLoop {id : TimerId} {clock : Int} (taken : step s (.cancelInLoop id clock) = some t) :
    t = { s with queue := cancelInLoop s.queue id clock } := by
  obtain ⟨_, taken⟩ := Option.ite_none_right_eq_some.mp taken
  cases taken
  rfl

theorem step_reset {clock : Int} (taken : step s (.reset clock) = some t) :
    ∃ now visited, s.batch = some ⟨now, visited, none, []⟩ ∧
    t = { s with queue := reset { s.queue with callingExpiredTimers := false } visited now clock, batch := none } := by
  simp only [step] at taken
  split at taken
  · rename_i now visited at_
    cases taken
    exact ⟨now, visited, at_, rfl⟩
  · cases taken

theorem inBatch_visited {now : Int} {visited : List Entry} (at_ : s.batch = some ⟨now, visited, none, []⟩) :
    s.inBatch = visited := by
  simp [State.inBatch, at_, Batch.expired]

theorem Inv.parked (inv : Inv s) {now : Int} {visited : List Entry} (at_ : s.batch = some ⟨now, visited, none, []⟩) :
    Rep { s.queue with callingExpiredTimers := false } s.numCreated s.incoming visited := by
  have listed := inv.rep
  rw [inBatch_visited at_] at listed
  exact listed.congr rfl rfl rfl rfl

theorem step_inv (inv : Inv s) {action : Action} (taken : step s action = some t) : Inv t := by
  cases action
  case addTimerInLoop timer clock =>
    obtain ⟨member, rfl⟩ := step_addTimerInLoop taken
    have same := addTimerInLoop_same s.queue timer clock
    exact ⟨same.rep (inv.rep.addTimerInLoop member clock),
      same.keeps.calling.trans ((Keeps.addTimerInLoop _ _ _).calling.trans inv.calling)⟩
  case cancelInLoop id clock =>
    cases step_cancelInLoop taken
    have same := cancelInLoop_same s.queue id clock
    exact ⟨same.rep (inv.rep.cancelInLoop id clock),
      same.keeps.calling.trans ((inv.rep.cancelInLoop_cases id clock).1.trans inv.calling)⟩
  case reset clock =>
    obtain ⟨now, visited, at_, rfl⟩ := step_reset taken
    have parked := Inv.parked inv at_
    have same := reset_same parked now clock
    exact ⟨same.rep (parked.turns (resetEntry_turn now)),
      same.keeps.calling.trans (turns_frame (resetEntry_turn now) _ _).1⟩
  all_goals exact inv.step (step_timeless taken trivial)

theorem wrap_eq {x : Int} (low : -2 ^ 63 ≤ x) (high : x < 2 ^ 63) : wrap x = x :=
  Int.bmod_eq_of_le (by omega) (by omega)

theorem wrap_lt (x : Int) : wrap x < 2 ^ 63 := Int.bmod_lt (by decide)

/-- A timer whose time points leave room for the sums that are formed of them. -/
structure Roomy (value : Timer) : Prop where
  start : 0 ≤ value.expiration
  bound : value.expiration < 2 ^ 62
  interval : 1000 * value.interval < 2 ^ 62

theorem nanoseconds_eq {delta : Int} (start : 0 ≤ delta) (bound : 1000 * delta < 2 ^ 63) :
    nanoseconds delta = 1000 * delta := by
  unfold nanoseconds
  rw [mul_comm]
  exact wrap_eq (by omega) bound

/-- The next time point after those that have passed, the first of which is `missed`. -/
theorem skip_eq {missed interval now : Int} (early : 0 ≤ missed) (overdue : missed ≤ now) (bound : now < 2 ^ 62)
    (positive : 0 < interval) (short : 1000 * interval < 2 ^ 62) :
    wrap (missed + nanoseconds (wrap (interval * wrap (((wrap (now - missed)).tdiv 1000).tdiv interval + 1)))) =
      missed + 1000 * (interval * (((now - missed).tdiv 1000).tdiv interval + 1)) ∧
    missed + 1000 * (interval * (((now - missed).tdiv 1000).tdiv interval + 1)) < 2 ^ 63 ∧
    0 ≤ missed + 1000 * (interval * (((now - missed).tdiv 1000).tdiv interval + 1)) := by
  obtain ⟨whole, next⟩ := skipped_bounds (now - missed) (by omega) positive
  have few : 0 ≤ ((now - missed).tdiv 1000).tdiv interval :=
    Int.tdiv_nonneg (Int.tdiv_nonneg (by omega) (by decide)) (by omega)
  have span : wrap (now - missed) = now - missed := wrap_eq (by omega) (by omega)
  rw [span]
  generalize ((now - missed).tdiv 1000).tdiv interval = skipped at *
  have less : skipped ≤ interval * skipped := le_mul_of_one_le_left few (by omega)
  have product : interval * (skipped + 1) = interval * skipped + interval := by rw [mul_add, mul_one]
  have count : wrap (skipped + 1) = skipped + 1 := wrap_eq (by omega) (by omega)
  have periods : wrap (interval * (skipped + 1)) = interval * (skipped + 1) := wrap_eq (by omega) (by omega)
  rw [count, periods, nanoseconds_eq (by omega) (by omega), wrap_eq (by omega) (by omega)]
  omega

theorem restart_eq {value : Timer} (roomy : Roomy value) {now : Int} (start : 0 ≤ now) (bound : now < 2 ^ 62) :
    restart value now = value.restart now ∧ 0 ≤ (value.restart now).expiration ∧
    (value.restart now).expiration < 2 ^ 63 := by
  have early := roomy.start
  have late := roomy.bound
  have short := roomy.interval
  unfold restart Timer.restart
  split
  · split
    · rename_i positive
      rw [nanoseconds_eq (by omega) (by omega), wrap_eq (by omega) (by omega)]
      dsimp only
      split
      · rename_i overdue
        obtain ⟨same, below, above⟩ := skip_eq (by omega) overdue bound positive short
        rw [same]
        exact ⟨rfl, above, below⟩
      · have above : 0 ≤ value.expiration + 1000 * value.interval := by omega
        have below : value.expiration + 1000 * value.interval < 2 ^ 63 := by omega
        exact ⟨rfl, above, below⟩
    · exact ⟨rfl, start, bound.trans (by decide)⟩
  · exact ⟨rfl, le_refl _, (by decide : (0 : Int) < 2 ^ 63)⟩

theorem resetTimerfd_eq (q : TimerQueue) {expiration clock : Int} (start : 0 ≤ expiration)
    (bound : expiration < 2 ^ 63) (read : 0 ≤ clock) (late : clock < 2 ^ 63) :
    resetTimerfd q expiration clock = q.resetTimerfd expiration clock := by
  unfold resetTimerfd TimerQueue.resetTimerfd howMuchTimeFromNow Timers.howMuchTimeFromNow
  rw [wrap_eq (by omega) (by omega)]

/-- Every object of the queue leaves room, and so do the readings of the step. -/
structure Moderate (s : State) (action : Action) : Prop where
  objects : ∀ timer value, s.queue.heap timer = some value → Roomy value
  batch : ∀ batch, s.batch = some batch → 0 ≤ batch.now ∧ batch.now < 2 ^ 62
  reading : ∀ clock, reading action = some clock → 0 ≤ clock ∧ clock < 2 ^ 62

theorem check_heap (q : TimerQueue) (holds : Prop) [Decidable holds] : (q.check holds).heap = q.heap := by
  unfold TimerQueue.check
  split <;> rfl

section Agreement

variable {clock : Int} (objects : ∀ timer value, q.heap timer = some value → Roomy value) (read : 0 ≤ clock)
  (late : clock < 2 ^ 62)

include objects read late

theorem armed_eq {timer : Nat} {value : Timer} (present : q.heap timer = some value) (r : TimerQueue) :
    resetTimerfd r value.expiration clock = r.resetTimerfd value.expiration clock := by
  have roomy := objects timer value present
  have bound := roomy.bound
  exact resetTimerfd_eq r roomy.start (by omega) read (by omega)

theorem addTimerInLoop_eq (timer : Nat) : addTimerInLoop q timer clock = q.addTimerInLoop timer clock := by
  unfold addTimerInLoop TimerQueue.addTimerInLoop TimerQueue.insert
  cases present : q.heap timer with
  | none => rfl
  | some value =>
    dsimp only
    cases q.earliestChanged value.expiration with
    | false => rfl
    | true =>
      simp only [(Keeps.insertTimer q timer value).heap, present]
      exact armed_eq objects read late present _

theorem rearm_eq : rearm q clock = q.rearm clock := by
  unfold rearm TimerQueue.rearm
  cases q.timers.first with
  | none => rfl
  | some earliest =>
    cases present : q.heap earliest.timer with
    | none => simp only [present]
    | some value =>
      simp only [present]
      exact armed_eq objects read late present q

theorem removeActive_eq (id : TimerId) (value : Timer) :
    removeActive q id value clock = q.removeActive id value clock := by
  unfold removeActive TimerQueue.removeActive
  cases decide (q.timers.first.map Entry.timer = some id.timer) with
  | false => rfl
  | true =>
    refine rearm_eq ?_ read late
    intro timer found present
    by_cases own : timer = id.timer
    · simp only [own, TimerQueue.delete, Function.update_self] at present
      cases present
    · simp only [TimerQueue.delete, Function.update_of_ne own, check_heap] at present
      exact objects timer found present

theorem cancelInLoop_eq (id : TimerId) : cancelInLoop q id clock = q.cancelInLoop id clock := by
  have checked : ∀ timer value, (q.check (q.timers.size = q.activeTimers.size)).heap timer = some value →
      Roomy value := by
    rw [check_heap]
    exact objects
  unfold cancelInLoop TimerQueue.cancelInLoop
  generalize q.check (q.timers.size = q.activeTimers.size) = p at checked
  by_cases active : id ∈ p.activeTimers
  · simp only [if_pos active]
    cases p.heap id.timer with
    | none => rfl
    | some value => exact removeActive_eq checked read late id value
  · simp only [if_neg active]

end Agreement

/-- The timers of a batch are restarted once each, so each leaves room when its turn comes. -/
theorem resetEntries_eq {now : Int} (start : 0 ≤ now) (bound : now < 2 ^ 62) {entries : List Entry}
    (distinct : (entries.map Entry.timer).Nodup)
    (objects : ∀ entry ∈ entries, ∀ value, q.heap entry.timer = some value → Roomy value) :
    entries.foldl (resetEntry now) q = entries.foldl (TimerQueue.resetEntry now) q := by
  induction entries generalizing q with
  | nil => rfl
  | cons entry rest hypothesis =>
    rw [List.map_cons, List.nodup_cons] at distinct
    have one : resetEntry now q entry = q.resetEntry now entry := by
      unfold resetEntry TimerQueue.resetEntry
      cases present : q.heap entry.timer with
      | none => rfl
      | some value =>
        dsimp only
        rw [(restart_eq (objects entry List.mem_cons_self value present) start bound).1]
    rw [List.foldl_cons, List.foldl_cons, one]
    apply hypothesis distinct.2
    intro other member value after
    have apart : other.timer ≠ entry.timer := by
      intro same
      apply distinct.1
      rw [← same]
      exact List.mem_map_of_mem member
    rw [(Timers.resetEntry_turn now q entry).frame.2.2 other.timer apart] at after
    exact objects other (List.mem_cons_of_mem _ member) value after

theorem reset_eq {now clock : Int} (rep : Rep q numCreated incoming batch)
    (objects : ∀ timer value, q.heap timer = some value → Roomy value) (start : 0 ≤ now) (bound : now < 2 ^ 62)
    (read : 0 ≤ clock) (late : clock < 2 ^ 62) : reset q batch now clock = q.reset batch now clock := by
  have distinct : (batch.map Entry.timer).Nodup :=
    (List.nodup_append.mp (List.nodup_append.mp rep.distinct).2.1).1
  have folded := resetEntries_eq start bound distinct fun entry _ => objects entry.timer
  unfold reset TimerQueue.reset
  rw [folded]
  dsimp only
  cases (batch.foldl (TimerQueue.resetEntry now) q).timers.first with
  | none => rfl
  | some earliest =>
    cases present : (batch.foldl (TimerQueue.resetEntry now) q).heap earliest.timer with
    | none => simp only [present]
    | some value =>
      have range : 0 ≤ value.expiration ∧ value.expiration < 2 ^ 63 := by
        rcases resetEntries_heap distinct present with ⟨_, before⟩ | ⟨_, old, before, _, rfl⟩
        · have roomy := objects earliest.timer value before
          have early := roomy.bound
          exact ⟨roomy.start, by omega⟩
        · exact (restart_eq (objects earliest.timer old before) start bound).2
      simp only [present]
      rw [resetTimerfd_eq _ range.1 range.2 read (by omega)]

/-- As long as the times leave room, the steps of the compiled code are those of the unbounded arithmetic. -/
theorem step_eq (inv : Inv s) {action : Action} (moderate : Moderate s action) :
    step s action = Timers.step s action := by
  cases action
  case addTimerInLoop timer clock =>
    have read := moderate.reading clock rfl
    simp only [step, Timers.step, addTimerInLoop_eq moderate.objects read.1 read.2]
  case cancelInLoop id clock =>
    have read := moderate.reading clock rfl
    simp only [step, Timers.step, cancelInLoop_eq moderate.objects read.1 read.2]
  case reset clock =>
    have read := moderate.reading clock rfl
    cases held : s.batch with
    | none => simp only [step, Timers.step, held]
    | some batch =>
      obtain ⟨now, visited, current, rest⟩ := batch
      cases current with
      | some _ => simp only [step, Timers.step, held]
      | none =>
        cases rest with
        | cons _ _ => simp only [step, Timers.step, held]
        | nil =>
          have begun := moderate.batch _ held
          simp only [step, Timers.step, held]
          rw [reset_eq (Inv.parked inv held) moderate.objects begun.1 begun.2 read.1 read.2]
  all_goals rfl

theorem moderate_reaches (run : Reaches step Moderate (State.initial numCreated) s) :
    Reaches Timers.step Moderate (State.initial numCreated) s := by
  have both : Inv s ∧ Reaches Timers.step Moderate (State.initial numCreated) s := by
    apply run.keeps ⟨Inv.initial numCreated, .refl _⟩
    intro before action after held moderate taken
    refine ⟨step_inv held.1 taken, held.2.next moderate ?_⟩
    rw [← step_eq held.1 moderate]
    exact taken
  exact both.2

end Hvnetpp.Timers.Signed64
