import Hvnetpp.Timers.Wrap
import Hvnetpp.Timers.Due

namespace Hvnetpp.Timers.Signed64

open Machine

/-- What `EventLoop` passes to `TimerQueue::addTimer`, the callback apart. -/
structure Request where
  when : Int
  interval : Int
  deriving DecidableEq, Repr

def runAt (time : Int) : Request := { when := time, interval := 0 }

/-- `now` is the reading that the function takes itself. -/
def runAfter (now delay : Int) : Request := runAt (wrap (now + nanoseconds delay))

def runEvery (now interval : Int) : Request := { when := wrap (now + nanoseconds interval), interval := interval }

inductive Method where
  | runAfter
  | runEvery
  deriving DecidableEq, Repr

def Method.request : Method → Int → Int → Request
  | .runAfter => Signed64.runAfter
  | .runEvery => Signed64.runEvery

/-- The queue with the latest reading of `steady_clock`, which never goes back. -/
structure Clocked where
  timers : State
  clock : Int

def Clocked.initial (numCreated : Nat) : Clocked := { timers := .initial numCreated, clock := 0 }

def Clocked.step (c : Clocked) (action : Action) : Option Clocked :=
  let now := (reading action).getD c.clock
  if c.clock ≤ now then (Signed64.step c.timers action).map fun timers => { timers := timers, clock := now } else none

/-- `getExpired(now)` returns the timer. -/
def Returns (q : TimerQueue) (id : TimerId) (now : Int) : Prop :=
  ∃ entry ∈ q.expired now, entry.timer = id.timer ∧ q.Numbered entry id.sequence

/-- The timer is stored with the expiration `due`, and is not returned by `getExpired` for an earlier reading:
    for none at all until its callback is started, and for none that the clock can still give after that. -/
def NeverEarly (c : Clocked) (id : TimerId) (due : Int) : Prop :=
  (∃ value, c.timers.queue.heap id.timer = some value ∧ value.sequence = id.sequence ∧ value.expiration = due) ∧
  ∀ d, Reaches Clocked.step Any c d → ∀ now, now < due → d.clock ≤ now ∨ id.sequence ∉ d.timers.started →
    ¬ Returns d.timers.queue id now

variable {c d : Clocked} {s t : State} {id : TimerId} {due now : Int} {numCreated : Nat}

theorem Clocked.step_some {action : Action} (taken : c.step action = some d) :
    Signed64.step c.timers action = some d.timers ∧ c.clock ≤ d.clock ∧
    ∀ now, reading action = some now → d.clock = now := by
  unfold Clocked.step at taken
  dsimp only at taken
  split at taken
  · rename_i le
    obtain ⟨timers, moved, rfl⟩ := Option.map_eq_some_iff.mp taken
    refine ⟨moved, le, ?_⟩
    intro now read
    simp only [read, Option.getD_some]
  · cases taken

theorem step_ages (inv : Inv s) {action : Action} (taken : step s action = some t) : Aged s t := by
  cases action
  case addTimerInLoop timer clock =>
    obtain ⟨_, rfl⟩ := step_addTimerInLoop taken
    exact .of_heap ((addTimerInLoop_same s.queue timer clock).keeps.heap.trans (Keeps.addTimerInLoop _ _ _).heap) rfl
  case cancelInLoop id clock =>
    cases step_cancelInLoop taken
    refine ⟨le_refl _, ?_⟩
    intro timer value present
    rw [(cancelInLoop_same s.queue id clock).keeps.heap] at present
    exact .inl ⟨value, inv.rep.cancelInLoop_present present, rfl⟩
  case reset clock =>
    obtain ⟨now, visited, at_, rfl⟩ := step_reset taken
    refine ⟨le_refl _, ?_⟩
    intro timer value present
    rw [(reset_same (Inv.parked inv at_) now clock).keeps.heap] at present
    exact .inl (turns_numbers (resetEntry_turn now) (q := { s.queue with callingExpiredTimers := false }) present)
  all_goals exact inv.ages (step_timeless taken trivial)

theorem step_started (inv : Inv s) {action : Action} (taken : step s action = some t) {sequence : Nat}
    (started : sequence ∈ s.started) : sequence ∈ t.started := by
  cases action
  case addTimerInLoop timer clock =>
    obtain ⟨_, rfl⟩ := step_addTimerInLoop taken
    exact started
  case cancelInLoop id clock =>
    cases step_cancelInLoop taken
    exact started
  case reset clock =>
    obtain ⟨now, visited, at_, rfl⟩ := step_reset taken
    exact started
  case run =>
    obtain ⟨_, _, _, _, _, _, _, rfl⟩ := inv.step_run (step_timeless taken trivial)
    exact List.mem_append_left _ started
  case handleRead now =>
    obtain ⟨_, rfl⟩ := step_handleRead (step_timeless taken trivial)
    exact started
  all_goals
    have moved := step_timeless taken trivial
    simp only [Timers.step] at moved
  case create timer when interval =>
    split at moved
    · cases moved
      exact started
    · cases moved
  case createElsewhere =>
    cases moved
    exact started
  case returned =>
    split at moved
    · cases moved
      exact started
    · cases moved

/-- The timer has its first expiration, and no batch has taken it up. -/
structure Waiting (id : TimerId) (due : Int) (s : State) : Prop where
  object : ∃ value, s.queue.heap id.timer = some value ∧ value.sequence = id.sequence ∧ value.expiration = due
  apart : ∀ entry ∈ s.inBatch, entry.timer ≠ id.timer

/-- A batch has taken the timer up, and has not come to it yet. -/
structure TakenUp (id : TimerId) (s : State) : Prop where
  object : ∃ value, s.queue.heap id.timer = some value ∧ value.sequence = id.sequence
  toRun : s.ToRun id

/-- The timer is deleted, and its number is not given again. -/
structure Gone (id : TimerId) (s : State) : Prop where
  issued : id.sequence ≤ s.numCreated
  absent : ∀ timer value, s.queue.heap timer = some value → value.sequence ≠ id.sequence

theorem Gone.step (gone : Gone id s) (inv : Inv s) {action : Action} (taken : Signed64.step s action = some t) :
    Gone id t := by
  have aged := step_ages inv taken
  refine ⟨gone.issued.trans aged.created, ?_⟩
  intro timer value present
  cases aged.numbers timer value present with
  | inl kept =>
    obtain ⟨old, before, number⟩ := kept
    rw [← number]
    exact gone.absent timer old before
  | inr newer =>
    have issued := gone.issued
    omega

/-- Deleting the object under an address deletes the only one with its number. -/
theorem Gone.of_deleted (inv : Inv s) {value : Timer} (present : s.queue.heap id.timer = some value)
    (number : value.sequence = id.sequence) (heap : t.queue.heap = Function.update s.queue.heap id.timer none)
    (created : t.numCreated = s.numCreated) : Gone id t := by
  constructor
  · rw [created, ← number]
    exact (inv.rep.numbered _ _ present).1
  · intro timer found after same
    rw [heap] at after
    obtain ⟨own, before⟩ := some_of_update_none after
    exact own (inv.rep.unique _ _ _ _ before present (same.trans number.symm))

theorem Waiting.keep (waiting : Waiting id due s) (heap : t.queue.heap id.timer = s.queue.heap id.timer)
    (batch : ∀ entry ∈ t.inBatch, entry ∈ s.inBatch) : Waiting id due t where
  object := by
    rw [heap]
    exact waiting.object
  apart := fun entry member => waiting.apart entry (batch entry member)

theorem Waiting.cancelInLoop (waiting : Waiting id due s) (inv : Inv s) {other : TimerId} {clock : Int}
    (taken : Signed64.step s (.cancelInLoop other clock) = some t) : Waiting id due t ∨ Gone id t := by
  cases step_cancelInLoop taken
  have heap := (cancelInLoop_same s.queue other clock).keeps.heap
  cases (inv.rep.cancelInLoop_cases other clock).2 with
  | inl found =>
    by_cases own : id.timer = other.timer
    · obtain ⟨value, present, number, _⟩ := waiting.object
      right
      refine Gone.of_deleted inv present number ?_ rfl
      rw [own]
      exact heap.trans found.2.1
    · left
      refine waiting.keep ?_ fun _ member => member
      show (Signed64.cancelInLoop s.queue other clock).heap id.timer = _
      rw [heap, found.2.1, Function.update_of_ne own]
  | inr absent =>
    left
    refine waiting.keep ?_ fun _ member => member
    show (Signed64.cancelInLoop s.queue other clock).heap id.timer = _
    rw [heap, absent.2.1]

theorem Waiting.handleRead (waiting : Waiting id due s) (inv : Inv s)
    (taken : Timers.step s (.handleRead now) = some t) : Waiting id due t ∨ due ≤ now ∧ TakenUp id t := by
  obtain ⟨_, rfl⟩ := step_handleRead taken
  have heap : ((s.queue.readTimerfd now).getExpired now).heap = s.queue.heap := (Keeps.getExpired _ _).heap
  obtain ⟨value, present, number, expiration⟩ := waiting.object
  by_cases listed : ∃ entry ∈ s.queue.expired now, entry.timer = id.timer
  · obtain ⟨entry, member, same⟩ := listed
    right
    constructor
    · rw [← same] at present
      have placed := inv.rep.entry_eq (OrderedSet.mem_below.mp member).1 present
      have late := sentry_due member
      rw [placed] at late
      rw [← expiration]
      exact late
    · refine ⟨⟨value, ?_, number⟩, _, rfl, entry, member, same⟩
      exact (congrFun heap id.timer).trans present
  · left
    refine ⟨⟨value, (congrFun heap id.timer).trans present, number, expiration⟩, ?_⟩
    intro entry member same
    exact listed ⟨entry, member, same⟩

theorem Waiting.reset (waiting : Waiting id due s) (inv : Inv s) {clock : Int}
    (taken : Signed64.step s (.reset clock) = some t) : Waiting id due t := by
  obtain ⟨began, visited, at_, rfl⟩ := step_reset taken
  have apart := waiting.apart
  rw [inBatch_visited at_] at apart
  refine waiting.keep ?_ fun entry member => absurd member List.not_mem_nil
  show (Signed64.reset _ visited began clock).heap id.timer = _
  rw [(reset_same (Inv.parked inv at_) began clock).keeps.heap, turns_apart (resetEntry_turn began) visited _ apart]

theorem create_heap {timer other : Nat} {when interval : Int} {value : Timer}
    (taken : Timers.step s (.create timer when interval) = some t) (present : s.queue.heap other = some value) :
    t.queue.heap other = s.queue.heap other ∧ t.batch = s.batch := by
  simp only [Timers.step] at taken
  split at taken
  · rename_i fresh
    cases taken
    have apart : other ≠ timer := by
      intro same
      rw [same, fresh.1] at present
      cases present
    exact ⟨Function.update_of_ne apart _ _, rfl⟩
  · cases taken

theorem step_returned (taken : Timers.step s .returned = some t) :
    ∃ now visited entry rest, s.batch = some ⟨now, visited, some entry, rest⟩ ∧
    t = { s with batch := some ⟨now, visited ++ [entry], none, rest⟩ } := by
  simp only [Timers.step] at taken
  split at taken
  · rename_i now visited entry rest at_
    cases taken
    exact ⟨now, visited, entry, rest, at_, rfl⟩
  · cases taken

theorem Waiting.step (waiting : Waiting id due s) (inv : Inv s) {action : Action}
    (taken : Signed64.step s action = some t) :
    Waiting id due t ∨ Gone id t ∨ ∃ now, action = .handleRead now ∧ due ≤ now ∧ TakenUp id t := by
  cases action
  case addTimerInLoop timer clock =>
    obtain ⟨_, rfl⟩ := step_addTimerInLoop taken
    left
    refine waiting.keep ?_ fun _ member => member
    show (Signed64.addTimerInLoop s.queue timer clock).heap id.timer = _
    rw [(addTimerInLoop_same s.queue timer clock).keeps.heap, (Keeps.addTimerInLoop _ _ _).heap]
  case cancelInLoop other clock =>
    cases waiting.cancelInLoop inv taken with
    | inl still => exact .inl still
    | inr gone => exact .inr (.inl gone)
  case reset clock => exact .inl (waiting.reset inv taken)
  case handleRead now =>
    cases waiting.handleRead inv (step_timeless taken trivial) with
    | inl still => exact .inl still
    | inr late => exact .inr (.inr ⟨now, rfl, late⟩)
  case create timer when interval =>
    obtain ⟨value, present, _⟩ := waiting.object
    obtain ⟨heap, batch⟩ := create_heap (step_timeless taken trivial) present
    left
    refine waiting.keep heap ?_
    unfold State.inBatch
    rw [batch]
    exact fun _ member => member
  case createElsewhere =>
    cases step_timeless taken trivial
    exact .inl (waiting.keep rfl fun _ member => member)
  case run =>
    obtain ⟨_, _, _, _, _, at_, _, rfl⟩ := inv.step_run (step_timeless taken trivial)
    left
    refine waiting.keep rfl ?_
    simp [State.inBatch, at_, Batch.expired]
  case returned =>
    obtain ⟨_, _, _, _, at_, rfl⟩ := step_returned (step_timeless taken trivial)
    left
    refine waiting.keep rfl ?_
    simp [State.inBatch, at_, Batch.expired]

theorem TakenUp.keep (takenUp : TakenUp id s) (heap : t.queue.heap id.timer = s.queue.heap id.timer)
    (batch : t.batch = s.batch) : TakenUp id t where
  object := by
    rw [heap]
    exact takenUp.object
  toRun := by
    unfold State.ToRun
    rw [batch]
    exact takenUp.toRun

theorem TakenUp.cancelInLoop (takenUp : TakenUp id s) (inv : Inv s) {other : TimerId} {clock : Int}
    (taken : Signed64.step s (.cancelInLoop other clock) = some t) : TakenUp id t := by
  cases step_cancelInLoop taken
  obtain ⟨batch, at_, entry, member, same⟩ := takenUp.toRun
  have listed : entry ∈ s.inBatch := by
    rw [State.inBatch, at_]
    exact List.mem_append_right _ member
  refine takenUp.keep ?_ rfl
  show (Signed64.cancelInLoop s.queue other clock).heap id.timer = _
  rw [(cancelInLoop_same s.queue other clock).keeps.heap]
  cases (inv.rep.cancelInLoop_cases other clock).2 with
  | inl found =>
    have apart : id.timer ≠ other.timer := by
      rw [← same]
      exact (inv.batch_inactive listed found.1).symm
    rw [found.2.1, Function.update_of_ne apart]
  | inr absent => rw [absent.2.1]

theorem TakenUp.run (takenUp : TakenUp id s) (inv : Inv s) (taken : Timers.step s .run = some t) :
    TakenUp id t ∨ id.sequence ∈ t.started := by
  obtain ⟨now, visited, head, rest, value, at_, present, rfl⟩ := inv.step_run taken
  obtain ⟨batch, found, entry, member, same⟩ := takenUp.toRun
  obtain ⟨object, there, number⟩ := takenUp.object
  cases at_.symm.trans found
  cases List.mem_cons.mp member with
  | inl first =>
    right
    rw [← first, same, there] at present
    cases present
    rw [← number]
    exact List.mem_append_right _ (List.mem_singleton_self _)
  | inr later => exact .inl ⟨⟨object, there, number⟩, _, rfl, entry, later, same⟩

theorem TakenUp.step (takenUp : TakenUp id s) (inv : Inv s) {action : Action}
    (taken : Signed64.step s action = some t) : TakenUp id t ∨ id.sequence ∈ t.started := by
  obtain ⟨batch, found, entry, member, same⟩ := takenUp.toRun
  cases action
  case addTimerInLoop timer clock =>
    obtain ⟨_, rfl⟩ := step_addTimerInLoop taken
    left
    refine takenUp.keep ?_ rfl
    show (Signed64.addTimerInLoop s.queue timer clock).heap id.timer = _
    rw [(addTimerInLoop_same s.queue timer clock).keeps.heap, (Keeps.addTimerInLoop _ _ _).heap]
  case cancelInLoop other clock => exact .inl (takenUp.cancelInLoop inv taken)
  case reset clock =>
    obtain ⟨_, _, at_, _⟩ := step_reset taken
    cases at_.symm.trans found
    cases member
  case handleRead now =>
    obtain ⟨none, _⟩ := step_handleRead (step_timeless taken trivial)
    cases none.symm.trans found
  case create timer when interval =>
    obtain ⟨value, present, _⟩ := takenUp.object
    obtain ⟨heap, batch⟩ := create_heap (step_timeless taken trivial) present
    exact .inl (takenUp.keep heap batch)
  case createElsewhere =>
    cases step_timeless taken trivial
    exact .inl (takenUp.keep rfl rfl)
  case run => exact takenUp.run inv (step_timeless taken trivial)
  case returned =>
    obtain ⟨_, _, _, _, at_, rfl⟩ := step_returned (step_timeless taken trivial)
    cases at_.symm.trans found
    exact .inl ⟨takenUp.object, _, rfl, entry, member, same⟩

/-- How far a timer has come: it waits for its first expiration, it is due and was taken up, it was started, or
    it was cancelled before. -/
inductive Course (id : TimerId) (due : Int) (c : Clocked) : Prop
  | waiting (waiting : Waiting id due c.timers)
  | takenUp (late : due ≤ c.clock) (takenUp : TakenUp id c.timers)
  | started (late : due ≤ c.clock) (started : id.sequence ∈ c.timers.started)
  | gone (gone : Gone id c.timers)

theorem Course.step (course : Course id due c) (inv : Inv c.timers) {action : Action}
    (taken : c.step action = some d) : Course id due d := by
  obtain ⟨moved, le, read⟩ := Clocked.step_some taken
  cases course with
  | waiting waiting =>
    rcases waiting.step inv moved with still | gone | ⟨now, rfl, late, takenUp⟩
    · exact .waiting still
    · exact .gone gone
    · rw [← read now rfl] at late
      exact .takenUp late takenUp
  | takenUp late takenUp =>
    cases takenUp.step inv moved with
    | inl still => exact .takenUp (late.trans le) still
    | inr started => exact .started (late.trans le) started
  | started late started => exact .started (late.trans le) (step_started inv moved started)
  | gone gone => exact .gone (gone.step inv moved)

theorem Course.not_returned (course : Course id due c) (inv : Inv c.timers) (early : now < due)
    (unserved : c.clock ≤ now ∨ id.sequence ∉ c.timers.started) : ¬ Returns c.timers.queue id now := by
  intro returns
  obtain ⟨entry, member, same, value, present, number⟩ := returns
  have scheduled := (OrderedSet.mem_below.mp member).1
  cases course with
  | waiting waiting =>
    obtain ⟨object, there, _, expiration⟩ := waiting.object
    rw [← same] at there
    have placed := inv.rep.entry_eq scheduled there
    have late := sentry_due member
    rw [placed] at late
    dsimp only at late
    omega
  | takenUp _ takenUp =>
    obtain ⟨batch, at_, waits, listed, same'⟩ := takenUp.toRun
    have inBatch : waits ∈ c.timers.inBatch := by
      rw [State.inBatch, at_]
      exact List.mem_append_right _ listed
    exact inv.batch_apart inBatch scheduled (same.trans same'.symm)
  | started late started =>
    cases unserved with
    | inl ahead => omega
    | inr unstarted => exact unstarted started
  | gone gone => exact gone.absent _ _ present number

theorem Clocked.reachable_inv (run : Reaches Clocked.step Any (Clocked.initial numCreated) c) : Inv c.timers :=
  run.keeps (Inv.initial numCreated) fun _ _ _ inv _ taken => step_inv inv (Clocked.step_some taken).1

theorem request_when (method : Method) (now delta : Int) :
    (method.request now delta).when = wrap (now + 1000 * delta) := by
  have sum : wrap (now + nanoseconds delta) = wrap (now + 1000 * delta) := by
    rw [mul_comm]
    exact Int.add_bmod_bmod
  cases method with
  | runAfter => exact sum
  | runEvery => exact sum

theorem Waiting.created (inv : Inv s) {timer : Nat} {when interval : Int}
    (taken : Timers.step s (.create timer when interval) = some t) :
    t.queue.heap timer = some (.create when interval (s.numCreated + 1)) ∧
    Waiting ⟨timer, s.numCreated + 1⟩ when t := by
  simp only [Timers.step] at taken
  split at taken
  · rename_i fresh
    cases taken
    have stored : Function.update s.queue.heap timer (some (.create when interval (s.numCreated + 1))) timer =
        some (.create when interval (s.numCreated + 1)) := Function.update_self _ _ _
    refine ⟨stored, ⟨_, stored, rfl, rfl⟩, ?_⟩
    intro entry member same
    obtain ⟨value, present, _⟩ := inv.rep.live entry (.inr member)
    rw [same, fresh.1] at present
    cases present
  · cases taken

/-- A timer added by `runAfter` or `runEvery` is due after its delay and not before, unless the nanoseconds of
    its expiration do not fit into 64 bits. -/
theorem delayed_timer_never_early (run : Reaches Clocked.step Any (Clocked.initial numCreated) c) (method : Method)
    {delta : Int} (start : 0 ≤ now) (positive : 0 ≤ delta) {timer : Nat}
    (taken : c.step (.create timer (method.request now delta).when (method.request now delta).interval) = some d) :
    NeverEarly d ⟨timer, c.timers.numCreated + 1⟩ (now + 1000 * delta) ↔ now + 1000 * delta < 2 ^ 63 := by
  have inv := Clocked.reachable_inv run
  obtain ⟨stored, waiting⟩ := Waiting.created inv (step_timeless (Clocked.step_some taken).1 trivial)
  rw [request_when] at stored waiting
  constructor
  · intro never
    obtain ⟨⟨value, present, _, exact_⟩, _⟩ := never
    rw [stored] at present
    cases present
    rw [← exact_]
    exact wrap_lt _
  · intro fits
    rw [wrap_eq (by omega) fits] at stored waiting
    refine ⟨⟨_, stored, rfl, rfl⟩, ?_⟩
    intro later reached reading early unserved
    have both : Inv later.timers ∧ Course ⟨timer, c.timers.numCreated + 1⟩ (now + 1000 * delta) later := by
      apply reached.keeps ⟨step_inv inv (Clocked.step_some taken).1, .waiting waiting⟩
      intro before action after held _ moved
      exact ⟨step_inv held.1 (Clocked.step_some moved).1, held.2.step held.1 moved⟩
    exact both.2.not_returned both.1 early unserved

/-- A timer every 3 microseconds, first asked for at 5. -/
theorem delayed_timer_never_early_short : ∃ c d : Clocked,
    c.step (.create 8 (runEvery 5 3).when (runEvery 5 3).interval) = some d ∧ NeverEarly d ⟨8, 1⟩ 3005 := by
  obtain ⟨d, taken⟩ : ∃ d, (Clocked.initial 0).step (.create 8 (runEvery 5 3).when (runEvery 5 3).interval) = some d :=
    ⟨_, rfl⟩
  refine ⟨_, d, taken, ?_⟩
  exact (delayed_timer_never_early (.refl _) .runEvery (by decide) (by decide) taken).mpr (by decide)

/-- The largest delay, meant for a timer that never runs, makes it due a microsecond before it was asked for: the
    next `handleRead` starts it. -/
theorem longest_delay_runs_at_once : ∃ c d e : Clocked, Reaches Clocked.step Any (Clocked.initial 0) c ∧
    c.step (.create 8 (runAfter 5000 (2 ^ 63 - 1)).when (runAfter 5000 (2 ^ 63 - 1)).interval) = some d ∧
    (d.timers.queue.heap 8).map Timer.expiration = some 4000 ∧
    exec Clocked.step d [.addTimerInLoop 8 6000, .handleRead 106000, .run] = some e ∧ e.timers.started = [1] ∧
    ¬ NeverEarly d ⟨8, 1⟩ (5000 + 1000 * (2 ^ 63 - 1)) := by
  have ran : (((Clocked.initial 0).step
      (.create 8 (runAfter 5000 (2 ^ 63 - 1)).when (runAfter 5000 (2 ^ 63 - 1)).interval)).bind fun d =>
      (exec Clocked.step d [.addTimerInLoop 8 6000, .handleRead 106000, .run]).map fun e =>
        ((d.timers.queue.heap 8).map Timer.expiration, e.timers.started)) = some (some 4000, [1]) := by decide
  obtain ⟨d, taken, ran⟩ := Option.bind_eq_some_iff.mp ran
  obtain ⟨e, reached, facts⟩ := Option.map_eq_some_iff.mp ran
  simp only [Prod.mk.injEq] at facts
  refine ⟨_, d, e, .refl _, taken, facts.1, reached, facts.2, ?_⟩
  intro never
  obtain ⟨⟨value, present, _, expiration⟩, _⟩ := never
  have stored := facts.1
  rw [present, Option.map_some, Option.some.injEq] at stored
  omega

end Hvnetpp.Timers.Signed64
