import Hvnetpp.Timers.Invariant

namespace Hvnetpp.Timers

open Machine

variable {s t : State} {q : TimerQueue} {id : TimerId}

def State.Scheduled (s : State) (id : TimerId) : Prop :=
  id ∈ s.queue.activeTimers ∨ ∃ entry ∈ s.inBatch, entry.timer = id.timer ∧
    ∃ value, s.queue.heap id.timer = some value ∧ value.sequence = id.sequence

def State.ToRun (s : State) (id : TimerId) : Prop :=
  ∃ batch, s.batch = some batch ∧ ∃ entry ∈ batch.rest, entry.timer = id.timer

theorem resetEntries_deletes (now : Int) {entries : List Entry} {entry : Entry} {value : Timer}
    (member : entry ∈ entries) (same : entry.timer = id.timer) (noted : id ∈ q.cancelingTimers)
    (present : q.heap id.timer = some value) (number : value.sequence = id.sequence) :
    (entries.foldl (TimerQueue.resetEntry now) q).heap id.timer = none := by
  induction entries generalizing q with
  | nil => cases member
  | cons head rest hypothesis =>
    by_cases own : head.timer = id.timer
    · have deleted : (q.resetEntry now head).heap id.timer = none := by
        have cancelled : (⟨head.timer, value.sequence⟩ : ActiveTimer) ∈ q.cancelingTimers := by
          rw [own, number]
          exact noted
        simp only [TimerQueue.resetEntry, own, present]
        rw [if_neg (fun kept => kept.2 (own ▸ cancelled)), delete_eq present]
        exact Function.update_self _ _ _
      cases after : (rest.foldl (TimerQueue.resetEntry now) (q.resetEntry now head)).heap id.timer with
      | none => exact after
      | some found =>
        obtain ⟨old, before, _⟩ := turns_numbers (resetEntry_turn now) after
        rw [deleted] at before
        cases before
    · obtain ⟨_, canceling, heap⟩ := (resetEntry_turn now q head).frame
      have later : entry ∈ rest := by
        rcases List.mem_cons.mp member with rfl | later
        · exact absurd same own
        · exact later
      exact hypothesis later (canceling ▸ noted) ((heap _ (Ne.symm own)).trans present)

structure Aged (s t : State) : Prop where
  created : s.numCreated ≤ t.numCreated
  numbers : ∀ timer value, t.queue.heap timer = some value →
    (∃ old, s.queue.heap timer = some old ∧ old.sequence = value.sequence) ∨ s.numCreated < value.sequence

theorem Aged.of_heap (heap : t.queue.heap = s.queue.heap) (created : t.numCreated = s.numCreated) :
    Aged s t where
  created := created.ge
  numbers := fun _ value present => .inl ⟨value, heap ▸ present, rfl⟩

theorem Inv.ages (inv : Inv s) {action : Action} (taken : Timers.step s action = some t) : Aged s t := by
  cases action <;> simp only [Timers.step] at taken
  case create timer when interval =>
    split at taken
    · cases taken
      refine ⟨Nat.le_succ _, ?_⟩
      intro other value present
      by_cases own : other = timer
      · subst own
        simp only [Function.update_self] at present
        cases present
        exact .inr (Nat.lt_succ_self _)
      · simp only [Function.update_of_ne own] at present
        exact .inl ⟨value, present, rfl⟩
    · cases taken
  case createElsewhere =>
    cases taken
    exact ⟨Nat.le_succ _, fun _ value present => .inl ⟨value, present, rfl⟩⟩
  case addTimerInLoop timer clock =>
    split at taken
    · cases taken
      exact .of_heap (Keeps.addTimerInLoop _ _ _).heap rfl
    · cases taken
  case cancelInLoop id clock =>
    split at taken
    · cases taken
      refine ⟨le_refl _, ?_⟩
      intro timer value present
      exact .inl ⟨value, inv.rep.cancelInLoop_present present, rfl⟩
    · cases taken
  case handleRead now =>
    split at taken
    · cases taken
      exact .of_heap (Keeps.getExpired _ _).heap rfl
    · cases taken
  case run =>
    split at taken
    · cases taken
      unfold State.startEntry
      split <;> exact .of_heap rfl rfl
    · cases taken
  case returned =>
    split at taken
    · cases taken
      exact .of_heap rfl rfl
    · cases taken
  case reset clock =>
    split at taken
    · cases taken
      refine ⟨le_refl _, ?_⟩
      intro timer value present
      simp only [(reset_frame _ _ _ _).heap] at present
      exact .inl (turns_numbers (resetEntry_turn _) (q := { s.queue with callingExpiredTimers := false }) present)
    · cases taken

/-- `run` starts the callback of the entry the batch has come to. -/
theorem Inv.step_run (inv : Inv s) (taken : Timers.step s .run = some t) : ∃ now visited entry rest value,
    s.batch = some ⟨now, visited, none, entry :: rest⟩ ∧ s.queue.heap entry.timer = some value ∧
    t = { s with batch := some ⟨now, visited, some entry, rest⟩, started := s.started ++ [value.sequence] } := by
  simp only [Timers.step] at taken
  split at taken
  · rename_i now visited entry rest at_
    cases taken
    have listed : entry ∈ s.inBatch := by simp [State.inBatch, at_, Batch.expired]
    obtain ⟨value, present, _⟩ := inv.rep.live entry (.inr listed)
    simp only [State.startEntry, present]
    exact ⟨now, visited, entry, rest, value, at_, present, rfl⟩
  · cases taken

/-- No other action starts a callback. -/
theorem Inv.starts (inv : Inv s) {action : Action} (taken : Timers.step s action = some t) :
    t.started = s.started ∨ ∃ now visited entry rest value,
      s.batch = some ⟨now, visited, none, entry :: rest⟩ ∧ s.queue.heap entry.timer = some value ∧
      t = { s with batch := some ⟨now, visited, some entry, rest⟩, started := s.started ++ [value.sequence] } := by
  cases action
  case run => exact .inr (inv.step_run taken)
  all_goals simp only [Timers.step] at taken
  case createElsewhere =>
    cases taken
    exact .inl rfl
  all_goals
    split at taken
    · cases taken
      exact .inl rfl
    · cases taken

/-- The callback cannot be started any more: the object is deleted, or `reset` is going to delete it. -/
inductive Final (id : TimerId) (s : State) : Prop where
  | deleted (old : id.sequence ≤ s.numCreated)
      (gone : ∀ timer value, s.queue.heap timer = some value → value.sequence ≠ id.sequence)
  | noted (batch : Batch) (entry : Entry) (value : Timer) (at_ : s.batch = some batch)
      (passed : entry ∈ batch.visited ++ batch.current.toList) (same : entry.timer = id.timer)
      (present : s.queue.heap id.timer = some value) (number : value.sequence = id.sequence)
      (member : id ∈ s.queue.cancelingTimers)

theorem Inv.batch_inactive (inv : Inv s) {entry : Entry} (listed : entry ∈ s.inBatch)
    (active : id ∈ s.queue.activeTimers) : id.timer ≠ entry.timer := by
  intro same
  have distinct := inv.rep.distinct
  rw [List.nodup_append] at distinct
  obtain ⟨found, inside, at_, _⟩ := (inv.rep.active id).mp active
  exact distinct.2.2 _ (List.mem_map_of_mem inside) _
    (List.mem_append_left _ (List.mem_map_of_mem listed)) (at_.trans same)

theorem Inv.batch_distinct (inv : Inv s) {batch : Batch} (at_ : s.batch = some batch) {entry other : Entry}
    (passed : entry ∈ batch.visited ++ batch.current.toList) (waiting : other ∈ batch.rest) :
    other.timer ≠ entry.timer := by
  intro same
  have distinct := inv.rep.distinct
  simp only [State.inBatch, at_, Batch.expired] at distinct
  rw [List.nodup_append, List.nodup_append, List.map_append, List.nodup_append] at distinct
  exact distinct.2.1.1.2.2 _ (List.mem_map_of_mem passed) _ (List.mem_map_of_mem waiting) same.symm

theorem Final.aged (old : id.sequence ≤ s.numCreated)
    (gone : ∀ timer value, s.queue.heap timer = some value → value.sequence ≠ id.sequence)
    (aged : Aged s t) : Final id t := by
  apply Final.deleted (old.trans aged.created)
  intro timer value present same
  rcases aged.numbers timer value present with ⟨before, found, number⟩ | newer
  · exact gone timer before found (number.trans same)
  · omega

theorem Final.step (final : Final id s) (inv : Inv s) {action : Action}
    (taken : Timers.step s action = some t) : Final id t := by
  cases final with
  | deleted old gone => exact Final.aged old gone (inv.ages taken)
  | noted batch entry value at_ passed same present number member =>
    have listed : entry ∈ s.inBatch := by
      rw [State.inBatch, at_]
      exact List.mem_append_left _ passed
    cases action <;> simp only [Timers.step] at taken
    case create timer when interval =>
      split at taken
      · rename_i fresh
        cases taken
        have other : id.timer ≠ timer := by
          rintro rfl
          rw [fresh.1] at present
          cases present
        exact .noted batch entry value at_ passed same ((Function.update_of_ne other _ _).trans present)
          number member
      · cases taken
    case createElsewhere =>
      cases taken
      exact .noted batch entry value at_ passed same present number member
    case addTimerInLoop timer clock =>
      split at taken
      · cases taken
        have kept := Keeps.addTimerInLoop s.queue timer clock
        exact .noted batch entry value at_ passed same (kept.heap ▸ present) number (kept.canceling ▸ member)
      · cases taken
    case cancelInLoop other clock =>
      split at taken
      · cases taken
        rcases (inv.rep.cancelInLoop_cases other clock).2 with ⟨active, heap, canceling⟩ | ⟨_, heap, canceling⟩
        · have apart : id.timer ≠ other.timer := same ▸ (inv.batch_inactive listed active).symm
          refine .noted batch entry value at_ passed same ?_ number (canceling ▸ member)
          rw [heap, Function.update_of_ne apart]
          exact present
        · refine .noted batch entry value at_ passed same (heap ▸ present) number ?_
          rw [canceling]
          split
          · exact OrderedSet.mem_insert.mpr (.inr member)
          · exact member
      · cases taken
    case handleRead now =>
      simp only [at_] at taken
      cases taken
    case run =>
      split at taken
      · rename_i now visited head rest found
        cases taken
        cases found.symm.trans at_
        rw [Option.toList_none, List.append_nil] at passed
        unfold State.startEntry
        split <;> exact .noted _ entry value rfl (List.mem_append_left _ passed) same present number member
      · cases taken
    case returned =>
      split at taken
      · rename_i now visited head rest found
        cases taken
        cases found.symm.trans at_
        exact .noted _ entry value rfl (List.mem_append_left _ passed) same present number member
      · cases taken
    case reset clock =>
      split at taken
      · rename_i now visited found
        cases taken
        cases found.symm.trans at_
        rw [Option.toList_none, List.append_nil] at passed
        have gone := resetEntries_deletes (q := { s.queue with callingExpiredTimers := false }) now
          passed same member present number
        refine .deleted (number ▸ (inv.rep.numbered _ _ present).1) ?_
        intro timer kept after equal
        simp only [(reset_frame _ _ _ _).heap] at after
        obtain ⟨before, earlier, number'⟩ := turns_numbers (resetEntry_turn now) after
        have own : timer = id.timer :=
          inv.rep.unique _ _ _ _ earlier present ((number'.trans equal).trans number.symm)
        rw [own, gone] at after
        cases after
      · cases taken

def Quiet (id : TimerId) (s t : State) : Prop :=
  ∃ later, t.started = s.started ++ later ∧ id.sequence ∉ later

theorem Final.quiet (final : Final id s) (inv : Inv s) {action : Action}
    (taken : Timers.step s action = some t) : Quiet id s t := by
  rcases inv.starts taken with same | ⟨now, visited, entry, rest, value, at_, present, rfl⟩
  · exact ⟨[], by simp [same], List.not_mem_nil⟩
  · refine ⟨[value.sequence], rfl, ?_⟩
    rw [List.mem_singleton]
    intro equal
    cases final with
    | deleted old gone => exact gone _ _ present equal.symm
    | noted batch passedEntry own at' passed same there number member =>
      cases at_.symm.trans at'
      have twin : entry.timer = id.timer := inv.rep.unique _ _ _ _ present there (equal.symm.trans number.symm)
      exact inv.batch_distinct at_ passed List.mem_cons_self (twin.trans same.symm)

theorem Final.run (final : Final id s) (inv : Inv s) (run : Reaches Timers.step Any s t) : Quiet id s t := by
  apply run.relates (fun u => Inv u ∧ Final id u) ⟨inv, final⟩
  · exact fun _ => ⟨[], by simp, List.not_mem_nil⟩
  · rintro a b c ⟨first, ab, none⟩ ⟨second, bc, none'⟩
    refine ⟨first ++ second, by rw [bc, ab, List.append_assoc], ?_⟩
    rw [List.mem_append]
    exact not_or_intro none none'
  · intro before action after held _ taken
    exact ⟨⟨held.1.step taken, held.2.step held.1 taken⟩, held.2.quiet held.1 taken⟩

/-- The batch comes to each of its entries, whatever is in `cancelingTimers_`. -/
theorem Inv.comes_to (inv : Inv s) {now : Int} {visited before rest : List Entry} {entry : Entry}
    {value : Timer} (at_ : s.batch = some ⟨now, visited, none, before ++ entry :: rest⟩)
    (present : s.queue.heap entry.timer = some value) :
    ∃ t later, Reaches Timers.step Any s t ∧ t.started = s.started ++ later ∧ value.sequence ∈ later := by
  induction before generalizing s visited with
  | nil =>
    have started : Timers.step s .run = some { s with
        batch := some ⟨now, visited, some entry, rest⟩
        started := s.started ++ [value.sequence] } := by
      simp only [Timers.step, at_, List.nil_append, State.startEntry, present]
    exact ⟨_, [value.sequence], (Reaches.refl s).next trivial started, rfl, List.mem_singleton_self _⟩
  | cons head before hypothesis =>
    have listed : head ∈ s.inBatch := by simp [State.inBatch, at_, Batch.expired]
    obtain ⟨other, found, _⟩ := inv.rep.live head (.inr listed)
    let running : State :=
      { s with batch := some ⟨now, visited, some head, before ++ entry :: rest⟩, started := s.started ++ [other.sequence] }
    let returned : State :=
      { running with batch := some ⟨now, visited ++ [head], none, before ++ entry :: rest⟩ }
    have first : Timers.step s .run = some running := by
      simp only [Timers.step, at_, List.cons_append, State.startEntry, found]
      rfl
    have second : Timers.step running .returned = some returned := rfl
    obtain ⟨t, later, run, started, member⟩ :=
      hypothesis (s := returned) ((inv.step first).step second) rfl present
    refine ⟨t, other.sequence :: later, ?_, ?_, List.mem_cons_of_mem _ member⟩
    · exact (((Reaches.refl s).next trivial first).next trivial second).trans run
    · rw [started]
      simp [returned, running]

theorem step_cancelInLoop {clock : Int} (taken : step s (.cancelInLoop id clock) = some t) :
    s.userCode ∧ t = { s with queue := s.queue.cancelInLoop id clock } := by
  simp only [step] at taken
  split at taken
  · rename_i may
    exact ⟨may, by cases taken; rfl⟩
  · cases taken

theorem Inv.cancelled (inv : Inv s) {clock : Int} (scheduled : s.Scheduled id) (passed : ¬ s.ToRun id) :
    Final id { s with queue := s.queue.cancelInLoop id clock } := by
  obtain ⟨_, ⟨active, heap, _⟩ | ⟨inactive, heap, canceling⟩⟩ := inv.rep.cancelInLoop_cases id clock
  · obtain ⟨value, present, number, _⟩ := inv.rep.entry_of_active active
    refine .deleted (number ▸ (inv.rep.numbered _ _ present).1) ?_
    intro timer kept after equal
    simp only [heap] at after
    by_cases own : timer = id.timer
    · rw [own, Function.update_self] at after
      cases after
    · rw [Function.update_of_ne own] at after
      exact own (inv.rep.unique _ _ _ _ after present (equal.trans number.symm))
  · rcases scheduled with active | ⟨entry, listed, same, value, present, number⟩
    · exact absurd active inactive
    · cases at_ : s.batch with
      | none =>
        rw [State.inBatch, at_] at listed
        cases listed
      | some batch =>
        have noted : id ∈ (s.queue.cancelInLoop id clock).cancelingTimers := by
          rw [canceling, inv.calling, at_]
          exact OrderedSet.mem_insert.mpr (.inl rfl)
        rw [State.inBatch, at_] at listed
        rcases List.mem_append.mp listed with done | waiting
        · exact .noted batch entry value rfl done same (heap ▸ present) number noted
        · exact absurd ⟨batch, at_, entry, waiting, same⟩ passed

/-- The loop of `handleRead` does not look into `cancelingTimers_`. -/
theorem Inv.misses (inv : Inv s) (scheduled : s.Scheduled id) (userCode : s.userCode) {clock : Int}
    (next : Inv { s with queue := s.queue.cancelInLoop id clock }) {batch : Batch}
    (at_ : s.batch = some batch) {entry : Entry} (waiting : entry ∈ batch.rest)
    (same : entry.timer = id.timer) :
    ∃ t later, Reaches Timers.step Any { s with queue := s.queue.cancelInLoop id clock } t ∧
      t.started = s.started ++ later ∧ id.sequence ∈ later := by
  have listed : entry ∈ s.inBatch := by
    rw [State.inBatch, at_]
    exact List.mem_append_right _ waiting
  have inactive : id ∉ s.queue.activeTimers := fun active => inv.batch_inactive listed active same.symm
  obtain ⟨_, _, _, value, present, number⟩ := scheduled.resolve_left inactive
  obtain ⟨_, ⟨active, _⟩ | ⟨_, heap, _⟩⟩ := inv.rep.cancelInLoop_cases id clock
  · exact absurd active inactive
  · obtain ⟨now, visited, current, rest⟩ := batch
    obtain ⟨running, rfl⟩ := Option.isSome_iff_exists.mp (userCode _ at_)
    obtain ⟨before, after, rfl⟩ := List.append_of_mem waiting
    have returned : Timers.step { s with queue := s.queue.cancelInLoop id clock } .returned =
        some { s with
          queue := s.queue.cancelInLoop id clock
          batch := some ⟨now, visited ++ [running], none, before ++ entry :: after⟩ } := by
      simp only [Timers.step, at_]
    obtain ⟨t, later, run, started, member⟩ :=
      (next.step returned).comes_to rfl (heap ▸ same ▸ present)
    exact ⟨t, later, ((Reaches.refl _).next trivial returned).trans run, started, number ▸ member⟩

/-- A cancelled timer is never started again, unless the batch was still to come to it. -/
theorem cancel_final_iff {numCreated : Nat} {clock : Int} {after : State}
    (run : Reaches step Any (State.initial numCreated) s) (scheduled : s.Scheduled id)
    (cancelled : step s (.cancelInLoop id clock) = some after) :
    (∀ t, Reaches step Any after t → ∃ later, t.started = after.started ++ later ∧ id.sequence ∉ later) ↔
      ¬ s.ToRun id := by
  have inv := reachable_inv run
  have next := inv.step cancelled
  obtain ⟨userCode, rfl⟩ := step_cancelInLoop cancelled
  constructor
  · rintro silent ⟨batch, at_, entry, waiting, same⟩
    obtain ⟨t, later, further, started, member⟩ := inv.misses scheduled userCode next at_ waiting same
    obtain ⟨none, started', absent⟩ := silent t further
    rw [List.append_cancel_left (started.symm.trans started')] at member
    exact absent member
  · intro passed t further
    exact (inv.cancelled scheduled passed).run next further

def twoDue : List Action :=
  [.create 8 10 0, .addTimerInLoop 8 1, .create 16 20 0, .addTimerInLoop 16 2, .handleRead 30, .run]

theorem cancel_final_own : ∃ s after : State, s.started = [1] ∧
    step s (.cancelInLoop ⟨8, 1⟩ 31) = some after ∧
    ∀ t, Reaches step Any after t → ∃ later, t.started = after.started ++ later ∧ 1 ∉ later := by
  have ran : (exec step (State.initial 0) twoDue).map (fun s => (s.started, s.batch,
      s.queue.heap 8)) = some ([1], some ⟨30, [], some ⟨10, 8⟩, [⟨20, 16⟩]⟩, some (.create 10 0 1)) := by decide
  obtain ⟨s, reached, facts⟩ := Option.map_eq_some_iff.mp ran
  simp only [Prod.mk.injEq] at facts
  obtain ⟨started, at_, present⟩ := facts
  have scheduled : s.Scheduled ⟨8, 1⟩ := by
    refine .inr ⟨⟨10, 8⟩, ?_, rfl, _, present, rfl⟩
    rw [State.inBatch, at_]
    decide
  have userCode : s.userCode := by
    intro batch found
    cases at_.symm.trans found
    rfl
  have cancelled : step s (.cancelInLoop ⟨8, 1⟩ 31) =
      some { s with queue := s.queue.cancelInLoop ⟨8, 1⟩ 31 } := if_pos userCode
  refine ⟨s, _, started, cancelled, ?_⟩
  apply (cancel_final_iff (exec_reaches reached) scheduled cancelled).mpr
  rintro ⟨batch, found, entry, waiting, same⟩
  cases at_.symm.trans found
  cases List.mem_singleton.mp waiting
  cases same

/-- The running callback cancels the other timer, which is started all the same. -/
theorem cancelled_in_batch_runs : ∃ s after t : State, Reaches step Any (State.initial 0) s ∧
    s.Scheduled ⟨16, 2⟩ ∧ step s (.cancelInLoop ⟨16, 2⟩ 31) = some after ∧ Reaches step Any after t ∧
    after.started = [1] ∧ t.started = [1, 2] := by
  have ran : ((exec step (State.initial 0) twoDue).bind fun s =>
      (step s (.cancelInLoop ⟨16, 2⟩ 31)).bind fun after => (exec step after [.returned, .run]).map fun t =>
        (s.inBatch, s.queue.heap 16, after.started, t.started)) =
      some ([⟨10, 8⟩, ⟨20, 16⟩], some (.create 20 0 2), [1], [1, 2]) := by decide
  obtain ⟨s, reached, ran⟩ := Option.bind_eq_some_iff.mp ran
  obtain ⟨after, cancelled, ran⟩ := Option.bind_eq_some_iff.mp ran
  obtain ⟨t, further, facts⟩ := Option.map_eq_some_iff.mp ran
  simp only [Prod.mk.injEq] at facts
  obtain ⟨listed, present, before, started⟩ := facts
  have scheduled : s.Scheduled ⟨16, 2⟩ := by
    refine .inr ⟨⟨20, 16⟩, ?_, rfl, _, present, rfl⟩
    rw [listed]
    decide
  exact ⟨s, after, t, exec_reaches reached, scheduled, cancelled, exec_reaches further, before, started⟩

end Hvnetpp.Timers
