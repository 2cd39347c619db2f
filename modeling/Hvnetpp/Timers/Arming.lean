import Hvnetpp.Timers.Schedule

namespace Hvnetpp.Timers

open Machine

variable {q : TimerQueue} {s t : State} {numCreated : Nat} {incoming : List Nat} {batch : List Entry}

/-- `it_value` never says "disarm" and is never out of range. -/
theorem howMuchTimeFromNow_valid (when clock : Int) :
    ¬ ((howMuchTimeFromNow when clock).tv_sec = 0 ∧ (howMuchTimeFromNow when clock).tv_nsec = 0) ∧
      0 ≤ (howMuchTimeFromNow when clock).tv_nsec ∧ (howMuchTimeFromNow when clock).tv_nsec < 1000000000 := by
  have atLeast : ∀ value : Int, 100 ≤ value → ¬ (value.tdiv 1000000 = 0 ∧ value.tmod 1000000 * 1000 = 0) ∧
      0 ≤ value.tmod 1000000 * 1000 ∧ value.tmod 1000000 * 1000 < 1000000000 := by
    intro value large
    rw [Int.tdiv_eq_ediv_of_nonneg (by omega), Int.tmod_eq_emod_of_nonneg (by omega)]
    omega
  simp only [howMuchTimeFromNow]
  split
  · exact atLeast 100 (by omega)
  · exact atLeast _ (by omega)

/-- The descriptor fires by `expiration`, or as soon after the arming as it is ever set to. -/
def Within (timerfd : Option Int) (armed expiration : Int) : Prop :=
  ∃ firing, timerfd = some firing ∧ firing ≤ max expiration (armed + 100000)

theorem Within.settime (expiration clock : Int) :
    Within (Timers.settime (howMuchTimeFromNow expiration clock) clock) clock expiration := by
  have sum : ∀ value : Int, 0 ≤ value →
      value.tdiv 1000000 * 1000000000 + value.tmod 1000000 * 1000 = 1000 * value := by
    intro value large
    rw [Int.tdiv_eq_ediv_of_nonneg large, Int.tmod_eq_emod_of_nonneg large]
    omega
  refine ⟨_, if_neg (howMuchTimeFromNow_valid expiration clock).1, ?_⟩
  simp only [howMuchTimeFromNow]
  rw [add_assoc]
  split
  · rw [sum 100 (by omega)]
    exact le_max_right _ _
  · rename_i large
    have late : 0 ≤ expiration - clock := by
      by_contra early
      have flipped : (expiration - clock).tdiv 1000 = -((clock - expiration).tdiv 1000) := by
        rw [← Int.neg_tdiv, neg_sub]
      have := Int.tdiv_nonneg (a := clock - expiration) (b := 1000) (by omega) (by omega)
      omega
    rw [Int.tdiv_eq_ediv_of_nonneg late] at large ⊢
    rw [sum _ (by omega)]
    apply le_max_of_le_left
    omega

theorem Within.isSome {timerfd : Option Int} {armed expiration : Int} (within : Within timerfd armed expiration) :
    timerfd.isSome = true := by
  obtain ⟨firing, rfl, _⟩ := within
  rfl

theorem expiration_le {first second : Entry} (le : first ≤ second) : first.expiration ≤ second.expiration := by
  have lex : toLex (first.expiration, first.timer) ≤ toLex (second.expiration, second.timer) := le
  rcases Prod.Lex.le_iff.mp lex with earlier | same
  · exact le_of_lt earlier
  · exact le_of_eq same.1

theorem sentry_late {now : Int} {entry : Entry} (bound : entry.timer < uintptrMax) (above : sentry now ≤ entry) :
    now < entry.expiration := by
  have lex : toLex (now, uintptrMax) ≤ toLex (entry.expiration, entry.timer) := above
  rcases Prod.Lex.le_iff.mp lex with earlier | same
  · exact earlier
  · exact absurd same.2 (Nat.not_le.mpr bound)

theorem restart_late {timer : Timer} (repeats : timer.repeat_ = true) (now : Int) :
    now ≤ (timer.restart now).expiration := by
  simp only [Timer.restart, repeats, ↓reduceIte]
  split
  · rename_i positive
    split
    · rename_i overdue
      have next := (skipped_bounds (now - (timer.expiration + 1000 * timer.interval))
        (by omega) positive).2
      simp only
      omega
    · simp only
      omega
  · exact le_refl _

def armedFor (earliest : Option Entry) (clock : Int) : Option Int :=
  earliest.bind fun entry => settime (howMuchTimeFromNow entry.expiration clock) clock

theorem Rep.rearm_timerfd (rep : Rep q numCreated incoming batch) (clock : Int) :
    (q.rearm clock).timers = q.timers ∧ (q.rearm clock).timerfd = armedFor q.timers.first clock := by
  unfold TimerQueue.rearm
  split
  · rename_i none
    rw [none]
    exact ⟨rfl, rfl⟩
  · rename_i earliest first
    obtain ⟨value, present, same⟩ := rep.live earliest (.inl (OrderedSet.mem_first first))
    rw [first]
    simp only [present, armedFor, Option.bind_some, ← same]
    exact ⟨rfl, rfl⟩

theorem Rep.addTimerInLoop_timerfd (rep : Rep q numCreated incoming batch) {timer : Nat}
    (member : timer ∈ incoming) {value : Timer} (present : q.heap timer = some value) (clock : Int) :
    (q.addTimerInLoop timer clock).timers = q.timers.insert ⟨value.expiration, timer⟩ ∧
      (q.addTimerInLoop timer clock).timerfd =
        if q.earliestChanged value.expiration then settime (howMuchTimeFromNow value.expiration clock) clock
        else q.timerfd := by
  obtain ⟨listed, unlisted⟩ := rep.unlist_incoming member
  simp only [TimerQueue.addTimerInLoop, TimerQueue.insert, present, listed.insertTimer_eq unlisted]
  cases q.earliestChanged value.expiration with
  | true =>
    simp only [present]
    exact ⟨rfl, rfl⟩
  | false => exact ⟨rfl, rfl⟩

theorem Rep.removeActive_timerfd (rep : Rep q numCreated incoming batch) {id : TimerId} {value : Timer}
    (present : q.heap id.timer = some value) (number : value.sequence = id.sequence)
    (member : (⟨value.expiration, id.timer⟩ : Entry) ∈ q.timers) (clock : Int) :
    (q.removeActive id value clock).timers = q.timers.erase ⟨value.expiration, id.timer⟩ ∧
      (q.removeActive id value clock).timerfd =
        if q.timers.first.map Entry.timer = some id.timer then
          armedFor (q.timers.erase ⟨value.expiration, id.timer⟩).first clock
        else q.timerfd := by
  obtain ⟨listed, unlisted⟩ := rep.unlist_active present number member _ _ rfl rfl
  have deleted := listed.delete unlisted present
  have some_ : (q.heap id.timer).isSome = true := by rw [present]; rfl
  simp only [TimerQueue.delete, check_of some_] at deleted
  simp only [TimerQueue.removeActive, TimerQueue.delete, check_of member, check_of some_, decide_eq_true_eq]
  split
  · exact deleted.rearm_timerfd clock
  · exact ⟨rfl, rfl⟩

theorem insertTimer_timerfd (q : TimerQueue) (timer : Nat) (value : Timer) :
    (insertTimer q timer value).timers = q.timers.insert ⟨value.expiration, timer⟩ ∧
      (insertTimer q timer value).timerfd = q.timerfd := by
  simp only [insertTimer, TimerQueue.check]
  split <;> split <;> split <;> split <;> exact ⟨rfl, rfl⟩

/-- The loop of `reset` adds entries, none of them due, and does not touch the descriptor. -/
theorem resetEntries_timerfd (entries : List Entry) (q : TimerQueue) (now : Int) :
    (entries.foldl (TimerQueue.resetEntry now) q).timerfd = q.timerfd ∧
      (∀ entry ∈ q.timers, entry ∈ (entries.foldl (TimerQueue.resetEntry now) q).timers) ∧
      ∀ entry ∈ (entries.foldl (TimerQueue.resetEntry now) q).timers,
        entry ∈ q.timers ∨ now ≤ entry.expiration := by
  have one : ∀ (q : TimerQueue) (entry : Entry), (q.resetEntry now entry).timerfd = q.timerfd ∧
      (∀ other ∈ q.timers, other ∈ (q.resetEntry now entry).timers) ∧
      ∀ other ∈ (q.resetEntry now entry).timers, other ∈ q.timers ∨ now ≤ other.expiration := by
    intro q entry
    unfold TimerQueue.resetEntry
    split
    · exact ⟨rfl, fun _ member => member, fun _ member => .inl member⟩
    · rename_i value present
      split
      · rename_i repeats
        obtain ⟨timers, timerfd⟩ := insertTimer_timerfd
          { q with heap := Function.update q.heap entry.timer (some (value.restart now)) } entry.timer
          (value.restart now)
        rw [timers, timerfd]
        refine ⟨rfl, fun _ member => OrderedSet.mem_insert.mpr (.inr member), ?_⟩
        intro other member
        rcases OrderedSet.mem_insert.mp member with rfl | old
        · exact .inr (restart_late repeats.1 now)
        · exact .inl old
      · rw [delete_eq present]
        exact ⟨rfl, fun _ member => member, fun _ member => .inl member⟩
  induction entries generalizing q with
  | nil => exact ⟨rfl, fun _ member => member, fun _ member => .inl member⟩
  | cons entry rest hypothesis =>
    obtain ⟨timerfd, grows, new⟩ := one q entry
    obtain ⟨timerfd', grows', new'⟩ := hypothesis (q.resetEntry now entry)
    refine ⟨timerfd'.trans timerfd, fun other member => grows' other (grows other member), ?_⟩
    intro other member
    rcases new' other member with old | late
    · exact new other old
    · exact .inr late

/-- The queue with the reading at which its descriptor was last armed. -/
structure Arming where
  timers : State
  armed : Int

def Arming.initial (numCreated : Nat) : Arming := { timers := .initial numCreated, armed := 0 }

def Action.reading : Action → Option Int
  | .addTimerInLoop _ clock => some clock
  | .cancelInLoop _ clock => some clock
  | .handleRead now => some now
  | .reset clock => some clock
  | .create _ _ _ => none
  | .createElsewhere => none
  | .run => none
  | .returned => none

/-- `resetTimerfd` is called: no operation looks at the descriptor, so it is armed in this step if it would be
    armed starting without. -/
def State.arms (s : State) (action : Action) : Bool :=
  ((step { s with queue := s.queue.disarmTimerfd } action).bind fun next => next.queue.timerfd).isSome

/-- `lateRead` is the `::read` of `readTimerfd` when the descriptor fires between the reading of the clock and
    the call. -/
inductive Event where
  | operation (action : Action)
  | lateRead (clock : Int)
  deriving DecidableEq, Repr

def Arming.step (a : Arming) : Event → Option Arming
  | .operation action => (Timers.step a.timers action).map fun next =>
    { timers := next, armed := if a.timers.arms action then action.reading.getD a.armed else a.armed }
  | .lateRead clock =>
    match a.timers.batch with
    | some ⟨_, [], none, _⟩ =>
      some { a with timers := { a.timers with queue := a.timers.queue.readTimerfd clock } }
    | _ => none

/-- Readings of the clock are positive. -/
def Positive (_ : Arming) : Event → Prop
  | .operation action => ∀ reading ∈ action.reading, 0 < reading
  | .lateRead clock => 0 < clock

instance (a : Arming) : (event : Event) → Decidable (Positive a event)
  | .operation action => inferInstanceAs (Decidable (∀ reading ∈ action.reading, 0 < reading))
  | .lateRead clock => inferInstanceAs (Decidable (0 < clock))

/-- The descriptor is set for the earliest timer, except for those that `reset` is still going to set it for. -/
structure Armed (a : Arming) : Prop where
  inv : Inv a.timers
  begun : ∀ batch, a.timers.batch = some batch → 0 < batch.now
  bound : ∀ earliest, a.timers.queue.timers.first = some earliest →
    (∀ batch, a.timers.batch = some batch → earliest.expiration ≤ batch.now) →
    Within a.timers.queue.timerfd a.armed earliest.expiration
  unstarted : ∀ now rest, a.timers.batch = some ⟨now, [], none, rest⟩ →
    ∀ earliest, a.timers.queue.timers.first = some earliest → now < earliest.expiration

variable {a b : Arming}

theorem Armed.initial (numCreated : Nat) : Armed (Arming.initial numCreated) where
  inv := Inv.initial numCreated
  begun := by
    intro batch at_
    cases at_
  bound := by
    intro earliest first
    cases first
  unstarted := by
    intro now rest at_
    cases at_

/-- A step that sets neither the descriptor nor the sets. -/
theorem Armed.frame (held : Armed a) (inv : Inv t) (timers : t.queue.timers = a.timers.queue.timers)
    (timerfd : t.queue.timerfd = a.timers.queue.timerfd)
    (now : t.batch.map Batch.now = a.timers.batch.map Batch.now)
    (unstarted : ∀ now rest, t.batch = some ⟨now, [], none, rest⟩ →
      a.timers.batch = some ⟨now, [], none, rest⟩) : Armed { a with timers := t } where
  inv := inv
  begun := by
    intro batch at_
    have same := now
    rw [at_] at same
    obtain ⟨old, found, equal⟩ := Option.map_eq_some_iff.mp same.symm
    rw [← equal]
    exact held.begun old found
  bound := by
    intro earliest first due
    simp only [timers, timerfd] at first ⊢
    apply held.bound earliest first
    intro old found
    have same := now
    rw [found] at same
    obtain ⟨batch, at_, equal⟩ := Option.map_eq_some_iff.mp same
    rw [← equal]
    exact due batch at_
  unstarted := by
    intro now rest at_ earliest first
    simp only [timers] at first
    exact held.unstarted now rest (unstarted now rest at_) earliest first

theorem Within.of_armedFor {earliest : Option Entry} {entry : Entry} (first : earliest = some entry) (clock : Int) :
    Within (armedFor earliest clock) clock entry.expiration := by
  subst first
  exact Within.settime entry.expiration clock

/-- After an insertion that is not reported as a change, the earliest expiration is the old one. -/
theorem earliest_insert {timer : Nat} {when : Int} {earliest : Entry}
    (first : (q.timers.insert ⟨when, timer⟩).first = some earliest) :
    if q.earliestChanged when then earliest.expiration = when
    else ∃ old, q.timers.first = some old ∧ earliest.expiration = old.expiration := by
  have least : earliest.expiration ≤ when :=
    expiration_le (OrderedSet.first_le first (OrderedSet.mem_insert.mpr (.inl rfl)))
  have member := OrderedSet.mem_insert.mp (OrderedSet.mem_first first)
  unfold TimerQueue.earliestChanged
  split
  · rename_i none
    simp only [↓reduceIte]
    rcases member with rfl | inside
    · rfl
    · exact absurd inside (OrderedSet.first_none none)
  · rename_i old before
    have under : earliest.expiration ≤ old.expiration :=
      expiration_le (OrderedSet.first_le first (OrderedSet.mem_insert.mpr (.inr (OrderedSet.mem_first before))))
    have above : earliest.expiration = when ∨ old.expiration ≤ earliest.expiration := by
      rcases member with rfl | inside
      · exact .inl rfl
      · exact .inr (expiration_le (OrderedSet.first_le before inside))
    by_cases earlier : when < old.expiration
    · simp only [earlier, decide_true, ↓reduceIte]
      omega
    · simp only [earlier, decide_false, Bool.false_eq_true, ↓reduceIte]
      exact ⟨old, before, by omega⟩

/-- A step that arms the descriptor for the earliest timer, or has no need to. -/
theorem Armed.of_sets (changes : Prop) [Decidable changes] (inv : Inv t)
    (begun : ∀ batch, t.batch = some batch → 0 < batch.now)
    (started : ∀ now rest, t.batch ≠ some ⟨now, [], none, rest⟩)
    {action : Action} {clock : Int}
    (arms : a.timers.arms action = (if changes then armedFor t.queue.timers.first clock else none).isSome)
    (timerfd : t.queue.timerfd =
      if changes then armedFor t.queue.timers.first clock else a.timers.queue.timerfd)
    (otherwise : ¬ changes → ∀ earliest, t.queue.timers.first = some earliest →
      (∀ batch, t.batch = some batch → earliest.expiration ≤ batch.now) →
      Within a.timers.queue.timerfd a.armed earliest.expiration) :
    Armed { timers := t, armed := if a.timers.arms action then clock else a.armed } := by
  refine ⟨inv, begun, ?_, fun now rest at_ => absurd at_ (started now rest)⟩
  intro earliest first due
  simp only [arms, timerfd]
  by_cases change : changes
  · have within := Within.of_armedFor first clock
    simp only [if_pos change, if_pos within.isSome]
    exact within
  · simp only [if_neg change, Option.isSome_none, Bool.false_eq_true, ↓reduceIte]
    exact otherwise change earliest first due

theorem Rep.addTimerInLoop_arms (rep : Rep q numCreated incoming batch) {timer : Nat}
    (member : timer ∈ incoming) {value : Timer} (present : q.heap timer = some value) (clock : Int) :
    (q.addTimerInLoop timer clock).timerfd =
      if q.earliestChanged value.expiration then
        armedFor (q.timers.insert ⟨value.expiration, timer⟩).first clock
      else q.timerfd := by
  rw [(rep.addTimerInLoop_timerfd member present clock).2]
  cases first : (q.timers.insert ⟨value.expiration, timer⟩).first with
  | none =>
    have inside : (⟨value.expiration, timer⟩ : Entry) ∈ q.timers.insert ⟨value.expiration, timer⟩ :=
      OrderedSet.mem_insert.mpr (.inl rfl)
    exact absurd inside (OrderedSet.first_none first)
  | some earliest =>
    have which := earliest_insert first
    cases changed : q.earliestChanged value.expiration with
    | false => rfl
    | true =>
      rw [changed] at which
      simp only [↓reduceIte] at which ⊢
      simp only [armedFor, Option.bind_some, which]

theorem State.userCode.started (may : s.userCode) (now : Int) (rest : List Entry) :
    s.batch ≠ some ⟨now, [], none, rest⟩ := by
  intro at_
  cases may _ at_

theorem Armed.addTimerInLoop (held : Armed a) {timer : Nat} {clock : Int}
    (taken : Timers.step a.timers (.addTimerInLoop timer clock) = some t) :
    Armed { timers := t, armed := if a.timers.arms (.addTimerInLoop timer clock) then clock else a.armed } := by
  have inv := held.inv.step taken
  simp only [Timers.step] at taken
  split at taken
  · rename_i may
    cases taken
    have rep := held.inv.rep
    have without : Rep a.timers.queue.disarmTimerfd a.timers.numCreated a.timers.incoming a.timers.inBatch :=
      rep.congr rfl rfl rfl rfl
    have may' : timer ∈ a.timers.incoming ∧
        State.userCode { a.timers with queue := a.timers.queue.disarmTimerfd } := may
    obtain ⟨value, present⟩ := rep.loose timer may.1
    have timers := (rep.addTimerInLoop_timerfd may.1 present clock).1
    refine Armed.of_sets (a.timers.queue.earliestChanged value.expiration = true) inv held.begun may.2.started ?_ ?_ ?_
    · simp only [State.arms, Timers.step, if_pos may', Option.bind_some, timers,
        without.addTimerInLoop_arms may.1 present clock]
      rfl
    · simp only [timers, rep.addTimerInLoop_arms may.1 present clock]
    · intro unchanged earliest first due
      simp only [timers] at first
      have which := earliest_insert first
      rw [if_neg unchanged] at which
      obtain ⟨old, before, same⟩ := which
      rw [same] at due ⊢
      exact held.bound old before due
  · cases taken

/-- Unless the earliest timer is the one cancelled, it stays. -/
theorem Rep.cancelInLoop_arms (rep : Rep q numCreated incoming batch) (id : TimerId) (clock : Int) :
    ∃ timers, (∀ timerfd, (TimerQueue.cancelInLoop { q with timerfd := timerfd } id clock).timers = timers ∧
      (TimerQueue.cancelInLoop { q with timerfd := timerfd } id clock).timerfd =
        if id ∈ q.activeTimers ∧ q.timers.first.map Entry.timer = some id.timer then armedFor timers.first clock
        else timerfd) ∧
      (¬ (id ∈ q.activeTimers ∧ q.timers.first.map Entry.timer = some id.timer) →
        ∀ earliest, timers.first = some earliest → q.timers.first = some earliest) := by
  by_cases active : id ∈ q.activeTimers
  · obtain ⟨value, present, number, member⟩ := rep.entry_of_active active
    refine ⟨q.timers.erase ⟨value.expiration, id.timer⟩, ?_, ?_⟩
    · intro timerfd
      have same : Rep { q with timerfd := timerfd } numCreated incoming batch := rep.congr rfl rfl rfl rfl
      simp only [TimerQueue.cancelInLoop, check_of same.size, present, active, true_and]
      exact same.removeActive_timerfd present number member clock
    · intro other earliest first
      have inside := (OrderedSet.mem_erase.mp (OrderedSet.mem_first first)).2
      cases before : q.timers.first with
      | none => exact absurd inside (OrderedSet.first_none before)
      | some old =>
        have kept : old ∈ q.timers.erase ⟨value.expiration, id.timer⟩ := by
          refine OrderedSet.mem_erase.mpr ⟨?_, OrderedSet.mem_first before⟩
          rintro rfl
          exact other ⟨active, by rw [before]; rfl⟩
        exact congrArg some (le_antisymm (OrderedSet.first_le before inside) (OrderedSet.first_le first kept))
  · refine ⟨q.timers, ?_, fun _ _ first => first⟩
    intro timerfd
    have size : ({ q with timerfd := timerfd } : TimerQueue).timers.size =
        ({ q with timerfd := timerfd } : TimerQueue).activeTimers.size := rep.size
    simp only [TimerQueue.cancelInLoop, check_of size, active, false_and, ↓reduceIte]
    split <;> exact ⟨rfl, rfl⟩

theorem Armed.cancelInLoop (held : Armed a) {id : TimerId} {clock : Int}
    (taken : Timers.step a.timers (.cancelInLoop id clock) = some t) :
    Armed { timers := t, armed := if a.timers.arms (.cancelInLoop id clock) then clock else a.armed } := by
  have inv := held.inv.step taken
  simp only [Timers.step] at taken
  split at taken
  · rename_i may
    cases taken
    have may' : State.userCode { a.timers with queue := a.timers.queue.disarmTimerfd } := may
    obtain ⟨timers, cancelled, otherwise⟩ := held.inv.rep.cancelInLoop_arms id clock
    have own := cancelled a.timers.queue.timerfd
    refine Armed.of_sets (id ∈ a.timers.queue.activeTimers ∧
      a.timers.queue.timers.first.map Entry.timer = some id.timer) inv held.begun may.started ?_ ?_ ?_
    · simp only [State.arms, Timers.step, if_pos may', Option.bind_some, own.1]
      exact congrArg Option.isSome (cancelled none).2
    · simp only [own.1]
      exact own.2
    · intro unchanged earliest first due
      simp only [own.1] at first
      exact held.bound earliest (otherwise unchanged earliest first) due
  · cases taken

/-- What `reset` looks at. -/
structure Alike (q r : TimerQueue) : Prop where
  heap : r.heap = q.heap
  timers : r.timers = q.timers
  canceling : r.cancelingTimers = q.cancelingTimers

theorem Alike.insertTimer {q r : TimerQueue} (alike : Alike q r) (timer : Nat) (value : Timer) :
    Alike (Timers.insertTimer q timer value) (Timers.insertTimer r timer value) where
  heap := by rw [(Keeps.insertTimer _ _ _).heap, (Keeps.insertTimer _ _ _).heap, alike.heap]
  timers := by rw [(insertTimer_timerfd _ _ _).1, (insertTimer_timerfd _ _ _).1, alike.timers]
  canceling := by rw [(Keeps.insertTimer _ _ _).canceling, (Keeps.insertTimer _ _ _).canceling, alike.canceling]

theorem Alike.resetEntry {q r : TimerQueue} (alike : Alike q r) (now : Int) (entry : Entry) :
    Alike (q.resetEntry now entry) (r.resetEntry now entry) := by
  cases present : q.heap entry.timer with
  | none =>
    have absent : r.heap entry.timer = none := by rw [alike.heap, present]
    simp only [TimerQueue.resetEntry, present, absent]
    exact ⟨alike.heap, alike.timers, alike.canceling⟩
  | some value =>
    have there : r.heap entry.timer = some value := by rw [alike.heap, present]
    simp only [TimerQueue.resetEntry, present, there, alike.canceling, delete_eq present, delete_eq there]
    split
    · apply Alike.insertTimer
      exact ⟨by simp only [alike.heap], alike.timers, rfl⟩
    · exact ⟨by simp only [alike.heap], alike.timers, rfl⟩

theorem Alike.resetEntries {q r : TimerQueue} (alike : Alike q r) (now : Int) (entries : List Entry) :
    Alike (entries.foldl (TimerQueue.resetEntry now) q) (entries.foldl (TimerQueue.resetEntry now) r) := by
  induction entries generalizing q r with
  | nil => exact alike
  | cons entry rest hypothesis => exact hypothesis (alike.resetEntry now entry)

def nextExpire (timers : OrderedSet Entry) : Int := (timers.first.map Entry.expiration).getD 0

theorem Rep.reset_arms (rep : Rep q numCreated incoming batch) (now clock : Int) :
    (q.reset batch now clock).timers = (batch.foldl (TimerQueue.resetEntry now) q).timers ∧
      (q.reset batch now clock).timerfd =
        if nextExpire (batch.foldl (TimerQueue.resetEntry now) q).timers ≠ 0 then
          armedFor (batch.foldl (TimerQueue.resetEntry now) q).timers.first clock
        else q.timerfd := by
  have folded := rep.resetEntries now
  have unset := (resetEntries_timerfd batch q now).1
  simp only [TimerQueue.reset]
  cases first : (batch.foldl (TimerQueue.resetEntry now) q).timers.first with
  | none =>
    simp only [nextExpire, first, Option.map_none, Option.getD_none, ne_eq, not_true, ↓reduceIte, true_and]
    exact unset
  | some earliest =>
    obtain ⟨value, present, same⟩ := folded.live earliest (.inl (OrderedSet.mem_first first))
    simp only [nextExpire, first, present, Option.map_some, Option.getD_some, armedFor, Option.bind_some, ← same]
    split
    · exact ⟨rfl, rfl⟩
    · exact ⟨rfl, unset⟩

theorem Armed.reset (held : Armed a) {clock : Int} (taken : Timers.step a.timers (.reset clock) = some t) :
    Armed { timers := t, armed := if a.timers.arms (.reset clock) then clock else a.armed } := by
  have inv := held.inv.step taken
  simp only [Timers.step] at taken
  split at taken
  · rename_i now visited at_
    cases taken
    have listed : Rep a.timers.queue a.timers.numCreated a.timers.incoming visited := by
      simpa [State.inBatch, at_, Batch.expired] using held.inv.rep
    have calling : Rep { a.timers.queue with callingExpiredTimers := false } a.timers.numCreated
        a.timers.incoming visited := listed.congr rfl rfl rfl rfl
    have without : Rep { a.timers.queue.disarmTimerfd with callingExpiredTimers := false } a.timers.numCreated
        a.timers.incoming visited := listed.congr rfl rfl rfl rfl
    have alike : Alike { a.timers.queue with callingExpiredTimers := false }
        { a.timers.queue.disarmTimerfd with callingExpiredTimers := false } := ⟨rfl, rfl, rfl⟩
    obtain ⟨timers, timerfd⟩ := calling.reset_arms now clock
    obtain ⟨_, grows, new⟩ := resetEntries_timerfd visited
      { a.timers.queue with callingExpiredTimers := false } now
    refine Armed.of_sets (nextExpire (visited.foldl (TimerQueue.resetEntry now)
      { a.timers.queue with callingExpiredTimers := false }).timers ≠ 0) inv ?_ ?_ ?_ ?_ ?_
    · intro batch found
      cases found
    · intro now rest found
      cases found
    · simp only [State.arms, Timers.step, at_, Option.bind_some, timers, (without.reset_arms now clock).2,
        (alike.resetEntries now visited).timers]
      rfl
    · simp only [timers, timerfd]
    · -- no timer is due at zero, but for one that a callback of this batch has added
      intro zero earliest first _
      simp only [timers] at first
      rw [ne_eq, not_not, nextExpire, first, Option.map_some, Option.getD_some] at zero
      have positive := held.begun _ at_
      simp only at positive
      have old : earliest ∈ a.timers.queue.timers := by
        rcases new earliest (OrderedSet.mem_first first) with old | late
        · exact old
        · omega
      cases before : a.timers.queue.timers.first with
      | none => exact absurd old (OrderedSet.first_none before)
      | some former =>
        have same : former = earliest := le_antisymm (OrderedSet.first_le before old)
          (OrderedSet.first_le first (grows former (OrderedSet.mem_first before)))
        rw [same] at before
        apply held.bound earliest before
        intro batch found
        cases at_.symm.trans found
        simp only
        omega
  · cases taken

theorem getExpired_timers (q : TimerQueue) (now : Int) : (q.getExpired now).timers = q.timers.above (sentry now) := by
  have fold : ∀ (entries : List Entry) (q : TimerQueue),
      (entries.foldl TimerQueue.eraseActive q).timers = q.timers := by
    intro entries
    induction entries with
    | nil => exact fun _ => rfl
    | cons entry rest hypothesis =>
      intro q
      rw [List.foldl_cons, hypothesis]
      unfold TimerQueue.eraseActive
      split
      · rfl
      · simp only [TimerQueue.check]
        split <;> rfl
  exact fold _ _

theorem Armed.handleRead (held : Armed a) {now : Int} (positive : 0 < now)
    (taken : Timers.step a.timers (.handleRead now) = some t) (armed : Int) : Armed { timers := t, armed := armed } := by
  have inv := held.inv.step taken
  simp only [Timers.step] at taken
  split at taken
  · rename_i idle
    cases taken
    have rep : Rep a.timers.queue a.timers.numCreated a.timers.incoming [] := by
      simpa only [State.inBatch, idle] using held.inv.rep
    have left : ((a.timers.queue.readTimerfd now).getExpired now).timers =
        a.timers.queue.timers.above (sentry now) := getExpired_timers _ now
    have late : ∀ earliest, (a.timers.queue.timers.above (sentry now)).first = some earliest →
        now < earliest.expiration := by
      intro earliest first
      obtain ⟨member, above⟩ := OrderedSet.mem_above (OrderedSet.mem_first first)
      obtain ⟨value, present, _⟩ := rep.live earliest (.inl member)
      exact sentry_late (rep.numbered _ _ present).2 above
    refine ⟨inv, ?_, ?_, ?_⟩
    · intro batch found
      cases found
      exact positive
    · intro earliest first due
      simp only [left] at first
      have later := late earliest first
      have early := due _ rfl
      simp only at early
      omega
    · intro now rest found earliest first
      cases found
      simp only [left] at first
      exact late earliest first
  · cases taken

theorem Armed.lateRead (held : Armed a) {clock : Int} (moved : a.step (.lateRead clock) = some b) : Armed b := by
  simp only [Arming.step] at moved
  split at moved
  · rename_i now rest at_
    cases moved
    refine ⟨⟨held.inv.rep.congr rfl rfl rfl rfl, held.inv.calling⟩, held.begun, ?_, held.unstarted⟩
    intro earliest first due
    have late := held.unstarted now rest at_ earliest first
    have early := due _ at_
    simp only at early
    omega
  · cases moved

theorem Armed.step (held : Armed a) {event : Event} (positive : Positive a event)
    (moved : a.step event = some b) : Armed b := by
  cases event with
  | lateRead clock => exact held.lateRead moved
  | operation action =>
    obtain ⟨t, taken, rfl⟩ := Option.map_eq_some_iff.mp moved
    have inv := held.inv.step taken
    cases action
    case addTimerInLoop timer clock => exact held.addTimerInLoop taken
    case cancelInLoop id clock => exact held.cancelInLoop taken
    case reset clock => exact held.reset taken
    case handleRead now => exact held.handleRead (positive now rfl) taken _
    case run =>
      obtain ⟨now, visited, entry, rest, value, at_, present, rfl⟩ := held.inv.step_run taken
      simp only [Action.reading, Option.getD_none, ite_self]
      refine held.frame inv rfl rfl (by rw [at_]; rfl) ?_
      intro now' rest' found
      cases found
    all_goals
      simp only [Timers.step] at taken
      simp only [Action.reading, Option.getD_none, ite_self]
    case createElsewhere =>
      cases taken
      exact held.frame inv rfl rfl rfl fun _ _ at_ => at_
    case create timer when interval =>
      split at taken
      · cases taken
        exact held.frame inv rfl rfl rfl fun _ _ at_ => at_
      · cases taken
    case returned =>
      split at taken
      · rename_i now visited entry rest at_
        cases taken
        refine held.frame inv rfl rfl (by rw [at_]; rfl) ?_
        intro now' rest' found
        simp at found
      · cases taken

/-- Whenever no operation is in progress the descriptor fires in time for the earliest timer, and no value it
    is set to disarms it or is out of range. -/
theorem timerfd_armed {numCreated : Nat} (run : Reaches Arming.step Positive (Arming.initial numCreated) a) :
    (a.timers.batch = none → ∀ earliest, a.timers.queue.timers.first = some earliest →
      ∃ firing, a.timers.queue.timerfd = some firing ∧ firing ≤ max earliest.expiration (a.armed + 100000)) ∧
    ∀ when clock, ¬ ((howMuchTimeFromNow when clock).tv_sec = 0 ∧ (howMuchTimeFromNow when clock).tv_nsec = 0) ∧
      0 ≤ (howMuchTimeFromNow when clock).tv_nsec ∧ (howMuchTimeFromNow when clock).tv_nsec < 1000000000 := by
  refine ⟨?_, howMuchTimeFromNow_valid⟩
  have held : Armed a := run.keeps (Armed.initial numCreated) fun _ _ _ held positive moved => held.step positive moved
  intro idle earliest first
  apply held.bound earliest first
  intro batch at_
  cases idle.symm.trans at_

/-- The callback of a repeating timer adds one that is due at once; `reset` arms for it. -/
def armedInBatch : List Event :=
  [.operation (.create 8 10 1), .operation (.addTimerInLoop 8 1), .operation (.handleRead 30), .lateRead 31,
    .operation .run, .operation (.create 16 5 0), .operation (.addTimerInLoop 16 32), .operation .returned,
    .operation (.reset 40)]

theorem timerfd_armed_in_batch : ∃ a : Arming, a.timers.queue.timers.first = some ⟨5, 16⟩ ∧ a.armed = 40 ∧
    ∃ firing, a.timers.queue.timerfd = some firing ∧ firing ≤ max 5 (40 + 100000) := by
  have ran : (exec (guarded Arming.step Positive) (Arming.initial 0) armedInBatch).map (fun a =>
      (a.timers.batch, a.timers.queue.timers.first, a.armed)) = some (none, some ⟨5, 16⟩, 40) := by decide
  obtain ⟨a, reached, facts⟩ := Option.map_eq_some_iff.mp ran
  simp only [Prod.mk.injEq] at facts
  obtain ⟨idle, first, armed⟩ := facts
  have within := (timerfd_armed (exec_guarded_reaches reached)).1 idle _ first
  rw [armed] at within
  exact ⟨a, first, armed, within⟩

end Hvnetpp.Timers
