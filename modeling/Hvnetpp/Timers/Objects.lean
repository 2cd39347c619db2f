import Hvnetpp.Timers.Cancel

namespace Hvnetpp.Timers

open Machine

variable {s t : State} {q : TimerQueue}

/-- The object created with this number has not been deleted. -/
def TimerQueue.Alive (q : TimerQueue) (sequence : Nat) : Prop :=
  ∃ timer value, q.heap timer = some value ∧ value.sequence = sequence

/-- The sets, the batch or a pending `addTimerInLoop` still point to this address. -/
def State.Listed (s : State) (timer : Nat) : Prop :=
  (∃ entry ∈ s.queue.timers, entry.timer = timer) ∨ (∃ id ∈ s.queue.activeTimers, id.timer = timer) ∨
    (∃ entry ∈ s.inBatch, entry.timer = timer) ∨ timer ∈ s.incoming

theorem Inv.listed_alive (inv : Inv s) {timer : Nat} (listed : s.Listed timer) :
    ∃ value, s.queue.heap timer = some value := by
  rcases listed with ⟨entry, member, rfl⟩ | ⟨id, member, rfl⟩ | ⟨entry, member, rfl⟩ | member
  · obtain ⟨value, present, _⟩ := inv.rep.live entry (.inl member)
    exact ⟨value, present⟩
  · obtain ⟨value, present, _⟩ := inv.rep.entry_of_active member
    exact ⟨value, present⟩
  · obtain ⟨value, present, _⟩ := inv.rep.live entry (.inr member)
    exact ⟨value, present⟩
  · exact inv.rep.loose timer member

/-- An address that was in use is not given to another object in the same step. -/
theorem Inv.keeps_number (inv : Inv s) {action : Action} (taken : Timers.step s action = some t) {timer : Nat}
    {old value : Timer} (before : s.queue.heap timer = some old) (after : t.queue.heap timer = some value) :
    value.sequence = old.sequence := by
  rcases (inv.ages taken).numbers timer value after with ⟨found, present, number⟩ | newer
  · rw [before] at present
    cases present
    exact number.symm
  · exfalso
    have bound := ((inv.step taken).rep.numbered timer value after).1
    cases action <;> simp only [Timers.step] at taken
    case create other when interval =>
      split at taken
      · rename_i fresh
        cases taken
        by_cases own : timer = other
        · rw [own, fresh.1] at before
          cases before
        · simp only [Function.update_of_ne own] at after
          have := (inv.rep.numbered timer value after).1
          omega
      · cases taken
    case createElsewhere =>
      cases taken
      have := (inv.rep.numbered timer value after).1
      omega
    case run =>
      split at taken
      · cases taken
        unfold State.startEntry at bound
        split at bound <;> exact absurd bound (Nat.not_le.mpr newer)
      · cases taken
    all_goals
      split at taken
      · cases taken
        exact absurd bound (Nat.not_le.mpr newer)
      · cases taken

theorem Inv.buried (inv : Inv s) (run : Reaches Timers.step Any s t) {sequence : Nat}
    (created : sequence ≤ s.numCreated) (dead : ¬ s.queue.Alive sequence) : ¬ t.queue.Alive sequence := by
  have dies : ∀ before action after, (Inv before ∧ sequence ≤ before.numCreated ∧ ¬ before.queue.Alive sequence) →
      Any before action → Timers.step before action = some after →
      Inv after ∧ sequence ≤ after.numCreated ∧ ¬ after.queue.Alive sequence := by
    intro before action after all _ taken
    obtain ⟨held, old, gone⟩ := all
    have aged := held.ages taken
    refine ⟨held.step taken, old.trans aged.created, ?_⟩
    rintro ⟨timer, value, present, number⟩
    rcases aged.numbers timer value present with ⟨earlier, found, same⟩ | newer
    · exact gone ⟨timer, earlier, found, same.trans number⟩
    · omega
  exact (run.keeps ⟨inv, created, dead⟩ dies).2.2

theorem Inv.batch_apart (inv : Inv s) {batched entry : Entry} (listed : batched ∈ s.inBatch)
    (member : entry ∈ s.queue.timers) : entry.timer ≠ batched.timer := by
  obtain ⟨value, present, _⟩ := inv.rep.live entry (.inl member)
  have active : (⟨entry.timer, value.sequence⟩ : TimerId) ∈ s.queue.activeTimers :=
    (inv.rep.active _).mpr ⟨entry, member, rfl, value, present, rfl⟩
  exact inv.batch_inactive listed active

/-- Between any two operations the sets say the same, every pointer in use leads to the object it was made
    for, no assertion has failed, and an object that is gone does not come back. -/
theorem timer_sets_agree {numCreated : Nat} (run : Reaches step Any (State.initial numCreated) s) :
    (∀ id, id ∈ s.queue.activeTimers ↔ ∃ entry ∈ s.queue.timers, ∃ value,
      s.queue.heap entry.timer = some value ∧ id = ⟨entry.timer, value.sequence⟩) ∧
    (∀ entry ∈ s.queue.timers, ∃ value,
      s.queue.heap entry.timer = some value ∧ entry.expiration = value.expiration) ∧
    s.queue.timers.size = s.queue.activeTimers.size ∧
    (∀ batched ∈ s.inBatch, (∀ entry ∈ s.queue.timers, entry.timer ≠ batched.timer) ∧
      ∀ id ∈ s.queue.activeTimers, id.timer ≠ batched.timer) ∧
    s.queue.failed = false ∧
    (∀ timer, s.Listed timer → ∃ value, s.queue.heap timer = some value) ∧
    (∀ action t, step s action = some t → ∀ timer old, s.queue.heap timer = some old → t.Listed timer →
      ∃ value, t.queue.heap timer = some value ∧ value.sequence = old.sequence) ∧
    ∀ t, Reaches step Any s t → ∀ sequence ≤ s.numCreated,
      ¬ s.queue.Alive sequence → ¬ t.queue.Alive sequence := by
  have inv := reachable_inv run
  refine ⟨?_, ?_, inv.rep.size, ?_, inv.rep.sound, fun timer listed => inv.listed_alive listed, ?_, ?_⟩
  · intro id
    rw [inv.rep.active id]
    constructor
    · rintro ⟨entry, member, same, value, present, number⟩
      refine ⟨entry, member, value, same ▸ present, ?_⟩
      rw [same, number]
    · rintro ⟨entry, member, value, present, rfl⟩
      exact ⟨entry, member, rfl, value, present, rfl⟩
  · intro entry member
    obtain ⟨value, present, same⟩ := inv.rep.live entry (.inl member)
    exact ⟨value, present, same.symm⟩
  · intro batched listed
    exact ⟨fun entry member => inv.batch_apart listed member, fun id active => inv.batch_inactive listed active⟩
  · intro action t taken timer old before listed
    obtain ⟨value, after⟩ := (inv.step taken).listed_alive listed
    exact ⟨value, after, inv.keeps_number taken before after⟩
  · intro t further sequence created dead
    exact inv.buried further created dead

/-- The first callback of a batch adds a timer and cancels the other one of its batch. -/
def addedInBatch : List Action :=
  twoDue ++ [.create 24 100 7, .addTimerInLoop 24 31, .cancelInLoop ⟨16, 2⟩ 32]

theorem timer_sets_agree_in_batch : ∃ s : State, s.inBatch = [⟨10, 8⟩, ⟨20, 16⟩] ∧
    s.queue.timers.elems = [⟨100, 24⟩] ∧ s.queue.failed = false ∧
    ∀ batched ∈ s.inBatch, ∀ entry ∈ s.queue.timers, entry.timer ≠ batched.timer := by
  have ran : (exec step (State.initial 0) addedInBatch).map (fun s => (s.inBatch, s.queue.timers.elems)) =
      some ([⟨10, 8⟩, ⟨20, 16⟩], [⟨100, 24⟩]) := by decide
  obtain ⟨s, reached, facts⟩ := Option.map_eq_some_iff.mp ran
  simp only [Prod.mk.injEq] at facts
  obtain ⟨_, _, _, apart, sound, _⟩ := timer_sets_agree (exec_reaches reached)
  exact ⟨s, facts.1, facts.2, sound, fun batched listed => (apart batched listed).1⟩

end Hvnetpp.Timers
