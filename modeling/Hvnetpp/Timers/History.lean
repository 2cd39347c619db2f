import Hvnetpp.Timers.Schedule

namespace Hvnetpp.Timers

open Machine

/-- The queue with a record of the calls: `made` has the arguments each timer was created with, `runs` the
    starts of its callback, both by sequence number. -/
structure History where
  timers : State
  made : Nat → Option (Int × Int)
  runs : Nat → List Run

def History.initial (numCreated : Nat) : History :=
  { timers := .initial numCreated, made := fun _ => none, runs := fun _ => [] }

def State.starting (s : State) : Option (Nat × Run) :=
  match s.batch with
  | some ⟨now, _, none, entry :: _⟩ =>
    (s.queue.heap entry.timer).map fun value => (value.sequence, ⟨value.expiration, now⟩)
  | _ => none

def History.note (h : History) : Action → History
  | .create _ when interval =>
    { h with made := Function.update h.made (h.timers.numCreated + 1) (some (when, interval)) }
  | .run =>
    match h.timers.starting with
    | some (sequence, run) => { h with runs := Function.update h.runs sequence (h.runs sequence ++ [run]) }
    | none => h
  | _ => h

def History.step (h : History) (action : Action) : Option History :=
  (Timers.step h.timers action).map fun next => { h.note action with timers := next }

variable {h k : History} {s t : State}

/-- The batch read at `now` has started this timer's callback. -/
def State.Passed (s : State) (now : Int) (timer : Nat) : Prop :=
  ∃ batch, s.batch = some batch ∧ batch.now = now ∧
    ∃ entry ∈ batch.visited ++ batch.current.toList, entry.timer = timer

/-- Where a live timer is on its schedule: waiting for its expiration, or between its callback's start and
    `reset`. -/
structure Placed (h : History) (timer : Nat) (value : Timer) (start interval : Int) : Prop where
  made : h.made value.sequence = some (start, interval)
  own : value.interval = interval ∧ value.repeat_ = decide (0 < interval)
  waiting : (∀ now, ¬ h.timers.Passed now timer) → Schedule start interval (h.runs value.sequence) value.expiration
  passed : ∀ now, h.timers.Passed now timer → ∃ earlier, h.runs value.sequence = earlier ++ [⟨value.expiration, now⟩] ∧
    Schedule start interval earlier value.expiration ∧ value.expiration ≤ now

structure Kept (h : History) : Prop where
  inv : Inv h.timers
  unmade : ∀ sequence, h.timers.numCreated < sequence → h.made sequence = none ∧ h.runs sequence = []
  placed : ∀ timer value, h.timers.queue.heap timer = some value →
    ∃ start interval, Placed h timer value start interval
  due : ∀ batch, h.timers.batch = some batch → ∀ entry ∈ batch.expired, entry.expiration ≤ batch.now
  ran : ∀ sequence start interval, h.made sequence = some (start, interval) →
    Ran start interval (h.runs sequence)

theorem Kept.initial (numCreated : Nat) : Kept (History.initial numCreated) where
  inv := Inv.initial numCreated
  unmade := fun _ _ => ⟨rfl, rfl⟩
  placed := by
    intro timer value present
    cases present
  due := by
    intro batch at_
    cases at_
  ran := by
    intro sequence start interval made
    cases made

/-- A step that leaves the surviving objects and the batch as they are. -/
theorem Kept.frame (kept : Kept h) (inv : Inv t)
    (heap : ∀ timer value, t.queue.heap timer = some value → h.timers.queue.heap timer = some value)
    (created : h.timers.numCreated ≤ t.numCreated)
    (passed : ∀ now timer, t.Passed now timer ↔ h.timers.Passed now timer)
    (due : ∀ batch, t.batch = some batch → ∀ entry ∈ batch.expired, entry.expiration ≤ batch.now) :
    Kept { h with timers := t } where
  inv := inv
  unmade := fun sequence beyond => kept.unmade sequence (lt_of_le_of_lt created beyond)
  placed := by
    intro timer value present
    obtain ⟨start, interval, placed⟩ := kept.placed timer value (heap timer value present)
    refine ⟨start, interval, placed.made, placed.own, ?_, ?_⟩
    · intro waiting
      apply placed.waiting
      intro now was
      exact waiting now ((passed now timer).mpr was)
    · intro now was
      exact placed.passed now ((passed now timer).mp was)
  due := due
  ran := kept.ran

theorem Inv.passed_alive (inv : Inv s) {now : Int} {timer : Nat} (passed : s.Passed now timer) :
    ∃ value, s.queue.heap timer = some value := by
  obtain ⟨batch, at_, _, entry, member, rfl⟩ := passed
  apply inv.listed_alive
  refine .inr (.inr (.inl ⟨entry, ?_, rfl⟩))
  rw [State.inBatch, at_]
  exact List.mem_append_left _ member

theorem Kept.create (kept : Kept h) {timer : Nat} {when interval : Int}
    (taken : Timers.step h.timers (.create timer when interval) = some t) :
    Kept { h.note (.create timer when interval) with timers := t } := by
  have inv := kept.inv.step taken
  simp only [Timers.step] at taken
  split at taken
  · rename_i fresh
    cases taken
    obtain ⟨unmade, unrun⟩ := kept.unmade (h.timers.numCreated + 1) (Nat.lt_succ_self _)
    have idle : ∀ now, ¬ h.timers.Passed now timer := by
      intro now passed
      obtain ⟨value, present⟩ := kept.inv.passed_alive passed
      rw [fresh.1] at present
      cases present
    refine ⟨inv, ?_, ?_, kept.due, ?_⟩
    · intro sequence beyond
      simp only at beyond
      have other : sequence ≠ h.timers.numCreated + 1 := by omega
      simp only [History.note, Function.update_of_ne other]
      exact kept.unmade sequence (by omega)
    · intro other value present
      by_cases own : other = timer
      · subst own
        simp only [Function.update_self, Option.some.injEq] at present
        subst present
        refine ⟨when, interval, Function.update_self _ _ _, ⟨rfl, rfl⟩, ?_, ?_⟩
        · intro _
          simp only [History.note, Timer.create, unrun]
          exact .first
        · intro now passed
          exact absurd passed (idle now)
      · simp only [Function.update_of_ne own] at present
        obtain ⟨start, gap, placed⟩ := kept.placed other value present
        have old : value.sequence ≠ h.timers.numCreated + 1 := by
          have := (kept.inv.rep.numbered other value present).1
          omega
        exact ⟨start, gap, (Function.update_of_ne old _ _).trans placed.made, placed.own, placed.waiting,
          placed.passed⟩
    · intro sequence start gap made
      by_cases own : sequence = h.timers.numCreated + 1
      · subst own
        simp only [History.note, unrun]
        exact .none
      · simp only [History.note, Function.update_of_ne own] at made
        exact kept.ran sequence start gap made
  · cases taken

theorem sentry_due {q : TimerQueue} {now : Int} {entry : Entry} (member : entry ∈ q.expired now) :
    entry.expiration ≤ now := by
  have below := (OrderedSet.mem_below.mp member).2
  have lex : toLex (entry.expiration, entry.timer) < toLex (now, uintptrMax) := below
  rcases Prod.Lex.lt_iff.mp lex with earlier | same
  · exact le_of_lt earlier
  · exact le_of_eq same.1

theorem Kept.run (kept : Kept h) (taken : Timers.step h.timers .run = some t) :
    Kept { h.note .run with timers := t } := by
  have inv := kept.inv.step taken
  obtain ⟨now, visited, entry, rest, value, at_, present, rfl⟩ := kept.inv.step_run taken
  have noted : h.note .run = { h with
      runs := Function.update h.runs value.sequence (h.runs value.sequence ++ [⟨value.expiration, now⟩]) } := by
    simp only [History.note, State.starting, at_, present, Option.map_some]
  rw [noted]
  have listed : entry ∈ h.timers.inBatch := by simp [State.inBatch, at_, Batch.expired]
  have idle : ∀ now, ¬ h.timers.Passed now entry.timer := by
    rintro now ⟨batch, found, _, other, member, same⟩
    cases at_.symm.trans found
    exact kept.inv.batch_distinct at_ member List.mem_cons_self same.symm
  have late : value.expiration ≤ now := by
    obtain ⟨found, there, expiration⟩ := kept.inv.rep.live entry (.inr listed)
    rw [present] at there
    cases there
    rw [expiration]
    exact kept.due _ at_ entry (by simp [Batch.expired])
  obtain ⟨start, interval, placed⟩ := kept.placed entry.timer value present
  have scheduled := placed.waiting idle
  refine ⟨inv, ?_, ?_, ?_, ?_⟩
  · intro sequence beyond
    have other : sequence ≠ value.sequence := by
      have := (kept.inv.rep.numbered _ _ present).1
      simp only at beyond
      omega
    simp only [Function.update_of_ne other]
    exact kept.unmade sequence beyond
  · intro timer found there
    by_cases own : timer = entry.timer
    · subst own
      cases present.symm.trans there
      refine ⟨start, interval, placed.made, placed.own, ?_, ?_⟩
      · intro waiting
        exact absurd ⟨_, rfl, rfl, entry, by simp, rfl⟩ (waiting now)
      · rintro now' ⟨batch, found, rfl, _⟩
        cases found
        exact ⟨h.runs value.sequence, Function.update_self _ _ _, scheduled, late⟩
    · have other : found.sequence ≠ value.sequence := by
        intro same
        exact own (kept.inv.rep.unique _ _ _ _ there present same)
      obtain ⟨start', interval', placed'⟩ := kept.placed timer found there
      refine ⟨start', interval', placed'.made, placed'.own, ?_, ?_⟩
      · intro waiting
        simp only [Function.update_of_ne other]
        apply placed'.waiting
        rintro now' ⟨batch, found, same, passed, member, rfl⟩
        cases at_.symm.trans found
        rw [Option.toList_none, List.append_nil] at member
        exact waiting now' ⟨_, rfl, same, passed, List.mem_append_left _ member, rfl⟩
      · rintro now' ⟨batch, found, rfl, passed, member, rfl⟩
        cases found
        simp only [Function.update_of_ne other]
        rcases List.mem_append.mp member with old | new
        · exact placed'.passed now ⟨_, at_, rfl, passed, List.mem_append_left _ old, rfl⟩
        · cases List.mem_singleton.mp new
          exact absurd rfl own
  · intro batch found
    cases found
    have before := kept.due _ at_
    simpa [Batch.expired] using before
  · intro sequence start' interval' made
    by_cases own : sequence = value.sequence
    · subst own
      cases placed.made.symm.trans made
      simp only [Function.update_self]
      exact .some scheduled late
    · simp only [Function.update_of_ne own]
      exact kept.ran sequence start' interval' made

/-- What `reset` leaves at an address: a restarted timer where an entry points to it, else what was there. -/
theorem resetEntries_heap {q : TimerQueue} {now : Int} {entries : List Entry} {timer : Nat} {value : Timer}
    (distinct : (entries.map Entry.timer).Nodup)
    (present : (entries.foldl (TimerQueue.resetEntry now) q).heap timer = some value) :
    (timer ∉ entries.map Entry.timer ∧ q.heap timer = some value) ∨
      (timer ∈ entries.map Entry.timer ∧ ∃ old, q.heap timer = some old ∧ old.repeat_ = true ∧
        value = old.restart now) := by
  induction entries generalizing q with
  | nil => exact .inl ⟨List.not_mem_nil, present⟩
  | cons entry rest hypothesis =>
    rw [List.map_cons, List.nodup_cons] at distinct
    rw [List.map_cons, List.mem_cons]
    by_cases own : timer = entry.timer
    · right
      subst own
      rcases hypothesis distinct.2 present with ⟨_, after⟩ | ⟨again, _⟩
      · refine ⟨.inl rfl, ?_⟩
        unfold TimerQueue.resetEntry at after
        split at after
        · rename_i gone
          exact nomatch gone.symm.trans after
        · rename_i old before
          split at after
          · rename_i repeats
            rw [(Keeps.insertTimer _ _ _).heap] at after
            simp only [Function.update_self, Option.some.injEq] at after
            exact ⟨old, before, repeats.1, after.symm⟩
          · rw [delete_eq before] at after
            simp only [Function.update_self] at after
            cases after
      · exact absurd again distinct.1
    · have frame := (resetEntry_turn now q entry).frame.2.2 timer own
      rcases hypothesis distinct.2 present with ⟨other, after⟩ | ⟨listed, after⟩
      · exact .inl ⟨not_or_intro own other, frame ▸ after⟩
      · exact .inr ⟨.inr listed, frame ▸ after⟩

theorem Kept.reset (kept : Kept h) {clock : Int} (taken : Timers.step h.timers (.reset clock) = some t) :
    Kept { h with timers := t } := by
  have inv := kept.inv.step taken
  simp only [Timers.step] at taken
  split at taken
  · rename_i now visited at_
    cases taken
    refine ⟨inv, kept.unmade, ?_, ?_, kept.ran⟩
    · have distinct : (visited.map Entry.timer).Nodup := by
        have all := kept.inv.rep.distinct
        simp only [State.inBatch, at_, Batch.expired, Option.toList_none, List.append_nil] at all
        exact (List.nodup_append.mp (List.nodup_append.mp all).2.1).1
      have passed : ∀ now' timer, h.timers.Passed now' timer ↔ now' = now ∧ timer ∈ visited.map Entry.timer := by
        intro now' timer
        rw [List.mem_map]
        constructor
        · rintro ⟨batch, found, rfl, entry, member, same⟩
          cases at_.symm.trans found
          rw [Option.toList_none, List.append_nil] at member
          exact ⟨rfl, entry, member, same⟩
        · rintro ⟨rfl, entry, member, same⟩
          exact ⟨_, at_, rfl, entry, List.mem_append_left _ member, same⟩
      intro timer value present
      simp only [(reset_frame _ _ _ _).heap] at present
      rcases resetEntries_heap distinct present with ⟨other, before⟩ | ⟨listed, old, before, repeats, rfl⟩
      · obtain ⟨start, interval, placed⟩ := kept.placed timer value before
        refine ⟨start, interval, placed.made, placed.own, ?_, ?_⟩
        · intro _
          apply placed.waiting
          intro now' was
          exact other ((passed now' timer).mp was).2
        · rintro now' ⟨batch, found, _⟩
          cases found
      · obtain ⟨start, interval, placed⟩ := kept.placed timer old before
        obtain ⟨earlier, runs, scheduled, late⟩ := placed.passed now ((passed now timer).mpr ⟨rfl, listed⟩)
        have positive : 0 < interval := by
          have := placed.own.2
          rw [repeats] at this
          exact of_decide_eq_true this.symm
        have grid := scheduled.grid
        have onGrid : old.expiration ∈ Grid start old.interval := placed.own.1 ▸ grid
        have least := restart_next repeats (placed.own.1 ▸ positive) onGrid late
        rw [placed.own.1] at least
        obtain ⟨expiration, restarted⟩ := restart_keeps old now
        rw [restarted] at least ⊢
        refine ⟨start, interval, placed.made, placed.own, ?_, ?_⟩
        · intro _
          simp only [runs]
          exact .next scheduled late positive least
        · rintro now' ⟨batch, found, _⟩
          cases found
    · intro batch found
      cases found
  · cases taken

theorem Kept.step (kept : Kept h) {action : Action} (moved : h.step action = some k) : Kept k := by
  obtain ⟨t, taken, rfl⟩ := Option.map_eq_some_iff.mp moved
  have inv := kept.inv.step taken
  cases action
  case create timer when interval => exact kept.create taken
  case run => exact kept.run taken
  case reset clock => exact kept.reset taken
  all_goals simp only [Timers.step] at taken
  case createElsewhere =>
    cases taken
    exact kept.frame inv (fun _ _ present => present) (Nat.le_succ _) (fun _ _ => Iff.rfl) kept.due
  case addTimerInLoop timer clock =>
    split at taken
    · cases taken
      refine kept.frame inv ?_ (le_refl _) (fun _ _ => Iff.rfl) kept.due
      intro other value present
      simp only [(Keeps.addTimerInLoop _ _ _).heap] at present
      exact present
    · cases taken
  case cancelInLoop id clock =>
    split at taken
    · cases taken
      refine kept.frame inv ?_ (le_refl _) (fun _ _ => Iff.rfl) kept.due
      intro timer value present
      exact kept.inv.rep.cancelInLoop_present present
    · cases taken
  case handleRead now =>
    split at taken
    · rename_i idle
      cases taken
      refine kept.frame inv ?_ (le_refl _) ?_ ?_
      · intro timer value present
        simp only [(Keeps.getExpired _ _).heap] at present
        exact present
      · intro now' timer
        constructor
        · rintro ⟨batch, found, _, entry, member, _⟩
          cases found
          cases member
        · rintro ⟨batch, found, _⟩
          cases idle.symm.trans found
      · intro batch found entry member
        cases found
        exact sentry_due member
    · cases taken
  case returned =>
    split at taken
    · rename_i now visited entry rest at_
      cases taken
      refine kept.frame inv (fun _ _ present => present) (le_refl _) ?_ ?_
      · intro now' timer
        simp [State.Passed, at_]
      · intro batch found
        cases found
        have before := kept.due _ at_
        simpa [Batch.expired] using before
    · cases taken

/-- The record has an entry for every start of a callback. -/
theorem Kept.counts (kept : Kept h) {action : Action} (moved : h.step action = some k)
    (counted : ∀ sequence, h.timers.started.count sequence = (h.runs sequence).length) :
    ∀ sequence, k.timers.started.count sequence = (k.runs sequence).length := by
  obtain ⟨t, taken, rfl⟩ := Option.map_eq_some_iff.mp moved
  intro sequence
  cases action
  case run =>
    obtain ⟨now, visited, entry, rest, value, at_, present, rfl⟩ := kept.inv.step_run taken
    simp only [History.note, State.starting, at_, present, Option.map_some, List.count_append, counted]
    by_cases own : sequence = value.sequence
    · subst own
      simp
    · simp [own, Ne.symm own]
  all_goals simp only [Timers.step] at taken
  case createElsewhere =>
    cases taken
    exact counted sequence
  all_goals
    split at taken
    · cases taken
      exact counted sequence
    · cases taken

theorem schedule_without_drift {numCreated sequence : Nat} {start interval : Int}
    (run : Reaches History.step Any (History.initial numCreated) h)
    (made : h.made sequence = some (start, interval)) :
    h.timers.started.count sequence = (h.runs sequence).length ∧
    (interval ≤ 0 → (h.runs sequence).length ≤ 1) ∧
    (∀ run ∈ (h.runs sequence).head?, run.expiration = start) ∧
    (∀ run ∈ h.runs sequence, run.expiration ∈ Grid start interval ∧ run.expiration ≤ run.now) ∧
    (h.runs sequence).IsChain (fun earlier later => earlier.expiration < later.expiration ∧
      IsLeast {point | point ∈ Grid start interval ∧ earlier.now < point} later.expiration) ∧
    ∀ timer value, h.timers.queue.heap timer = some value → value.sequence = sequence →
      (∀ now, ¬ h.timers.Passed now timer) →
      (h.runs sequence = [] → value.expiration = start) ∧ ∀ run ∈ (h.runs sequence).getLast?,
        IsLeast {point | point ∈ Grid start interval ∧ run.now < point} value.expiration := by
  have both : ∀ before action after,
      (Kept before ∧ ∀ sequence, before.timers.started.count sequence = (before.runs sequence).length) →
      Any before action → History.step before action = some after →
      Kept after ∧ ∀ sequence, after.timers.started.count sequence = (after.runs sequence).length := by
    intro before action after held _ taken
    exact ⟨held.1.step taken, held.1.counts taken held.2⟩
  obtain ⟨kept, counted⟩ := run.keeps ⟨Kept.initial numCreated, fun _ => rfl⟩ both
  have ran := kept.ran sequence start interval made
  refine ⟨counted sequence, ran.once, ran.on.first, ran.on.grid, ran.on.chain, ?_⟩
  rintro timer value present rfl waiting
  obtain ⟨start', interval', placed⟩ := kept.placed timer value present
  cases placed.made.symm.trans made
  obtain ⟨_, only, last⟩ := (placed.waiting waiting).on
  exact ⟨only, fun run member => (last run member).2⟩

/-- A timer of one microsecond whose second batch comes two periods late. -/
def lateBatch : List Action :=
  [.create 8 10 1, .addTimerInLoop 8 1, .handleRead 30, .run, .returned, .reset 40,
    .handleRead 3500, .run, .returned, .reset 3600]

theorem schedule_without_drift_late : ∃ h : History, h.runs 1 = [⟨10, 30⟩, ⟨1010, 3500⟩] ∧
    h.timers.started.count 1 = 2 ∧ IsLeast {point | point ∈ Grid 10 1 ∧ 3500 < point} 4010 := by
  have ran : (exec History.step (History.initial 0) lateBatch).map (fun h =>
      (h.runs 1, h.made 1, h.timers.batch, h.timers.queue.heap 8)) =
      some ([⟨10, 30⟩, ⟨1010, 3500⟩], some (10, 1), none, some ⟨4010, 1, true, 1⟩) := by decide
  obtain ⟨h, reached, facts⟩ := Option.map_eq_some_iff.mp ran
  simp only [Prod.mk.injEq] at facts
  obtain ⟨runs, made, idle, present⟩ := facts
  obtain ⟨count, _, _, _, _, next⟩ := schedule_without_drift (exec_reaches reached) made
  have waiting : ∀ now, ¬ h.timers.Passed now 8 := by
    rintro now ⟨batch, found, _⟩
    cases idle.symm.trans found
  obtain ⟨_, last⟩ := next 8 _ present rfl waiting
  rw [runs] at count last
  exact ⟨h, runs, count, last ⟨1010, 3500⟩ rfl⟩

end Hvnetpp.Timers
