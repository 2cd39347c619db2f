import Hvnetpp.Timers.Arming

namespace Hvnetpp.Timers

open Machine

variable {q r : TimerQueue} {numCreated : Nat} {incoming : List Nat} {batch : List Entry} {s t : State}

/-- No object is leaked: each is in the set, in the batch or on its way in. -/
def Owned (q : TimerQueue) (incoming : List Nat) (batch : List Entry) : Prop :=
  ∀ timer value, q.heap timer = some value → ¬ Unlisted q incoming batch timer

theorem listed_iff {timer : Nat} : ¬ Unlisted q incoming batch timer ↔
    (∃ entry ∈ q.timers, entry.timer = timer) ∨ (∃ entry ∈ batch, entry.timer = timer) ∨ timer ∈ incoming := by
  simp only [Unlisted, not_and_or, not_forall, not_not, exists_prop, ne_eq]

theorem Owned.resetEntry {entry : Entry} (owned : Owned q incoming (entry :: batch))
    (rep : Rep q numCreated incoming (entry :: batch)) (now : Int) :
    Owned (q.resetEntry now entry) incoming batch := by
  obtain ⟨value, present, _⟩ := rep.live entry (.inr List.mem_cons_self)
  obtain ⟨_, grows, _⟩ := resetEntries_timerfd [entry] q now
  intro timer found after
  rw [listed_iff]
  by_cases own : timer = entry.timer
  · subst own
    left
    simp only [TimerQueue.resetEntry, present] at after ⊢
    split at after
    · rename_i restarts
      rw [if_pos restarts, (insertTimer_timerfd _ _ _).1]
      exact ⟨_, OrderedSet.mem_insert.mpr (.inl rfl), rfl⟩
    · rw [delete_eq present] at after
      simp only [Function.update_self] at after
      cases after
  · rw [(resetEntry_turn now q entry).frame.2.2 timer own] at after
    rcases listed_iff.mp (owned timer found after) with ⟨other, member, same⟩ | ⟨other, member, same⟩ | member
    · exact .inl ⟨other, grows other member, same⟩
    · rcases List.mem_cons.mp member with rfl | later
      · exact absurd same.symm own
      · exact .inr (.inl ⟨other, later, same⟩)
    · exact .inr (.inr member)

theorem Owned.resetEntries (owned : Owned q incoming batch) (rep : Rep q numCreated incoming batch) (now : Int) :
    Owned (batch.foldl (TimerQueue.resetEntry now) q) incoming [] := by
  induction batch generalizing q with
  | nil => exact owned
  | cons entry rest hypothesis => exact hypothesis (owned.resetEntry rep now) (rep.turn (resetEntry_turn now q entry))

theorem Owned.addTimerInLoop (owned : Owned q incoming batch) (rep : Rep q numCreated incoming batch)
    {timer : Nat} (member : timer ∈ incoming) (clock : Int) :
    Owned (q.addTimerInLoop timer clock) (incoming.erase timer) batch := by
  obtain ⟨value, present⟩ := rep.loose timer member
  intro other found after
  rw [(Keeps.addTimerInLoop q timer clock).heap] at after
  rw [listed_iff, (rep.addTimerInLoop_timerfd member present clock).1]
  by_cases own : other = timer
  · subst own
    exact .inl ⟨_, OrderedSet.mem_insert.mpr (.inl rfl), rfl⟩
  · rcases listed_iff.mp (owned other found after) with ⟨entry, inside, same⟩ | batched | waiting
    · exact .inl ⟨entry, OrderedSet.mem_insert.mpr (.inr inside), same⟩
    · exact .inr (.inl batched)
    · exact .inr (.inr ((List.mem_erase_of_ne own).mpr waiting))

theorem Owned.cancelInLoop (owned : Owned q incoming batch) (rep : Rep q numCreated incoming batch)
    (id : TimerId) (clock : Int) : Owned (q.cancelInLoop id clock) incoming batch := by
  simp only [TimerQueue.cancelInLoop, check_of rep.size]
  split
  · rename_i active
    obtain ⟨value, present, number, member⟩ := rep.entry_of_active active
    have heap := (rep.cancelInLoop_cases id clock).2
    simp only [TimerQueue.cancelInLoop, check_of rep.size, if_pos active, present] at heap
    simp only [present]
    rcases heap with ⟨_, heap, _⟩ | ⟨inactive, _⟩
    · intro timer found after
      rw [heap] at after
      by_cases own : timer = id.timer
      · rw [own, Function.update_self] at after
        cases after
      · rw [Function.update_of_ne own] at after
        rw [listed_iff, (rep.removeActive_timerfd present number member clock).1]
        rcases listed_iff.mp (owned timer found after) with ⟨entry, inside, rfl⟩ | elsewhere
        · refine .inl ⟨entry, OrderedSet.mem_erase.mpr ⟨?_, inside⟩, rfl⟩
          rintro rfl
          exact own rfl
        · exact .inr elsewhere
    · exact absurd active inactive
  · split <;> exact owned

theorem Owned.getExpired (owned : Owned q incoming []) (now : Int) :
    Owned (q.getExpired now) incoming (q.expired now) := by
  intro timer found after
  rw [(Keeps.getExpired q now).heap] at after
  rw [listed_iff, getExpired_timers]
  rcases listed_iff.mp (owned timer found after) with ⟨entry, inside, same⟩ | ⟨entry, none, _⟩ | waiting
  · have parted : entry ∈ q.expired now ++ (q.timers.above (sentry now)).elems := by
      rw [TimerQueue.expired, OrderedSet.below_append_above]
      exact inside
    rcases List.mem_append.mp parted with due | later
    · exact .inr (.inl ⟨entry, due, same⟩)
    · exact .inl ⟨entry, later, same⟩
  · cases none
  · exact .inr (.inr waiting)

theorem Owned.step (owned : Owned s.queue s.incoming s.inBatch) (inv : Inv s) {action : Action}
    (taken : Timers.step s action = some t) : Owned t.queue t.incoming t.inBatch := by
  have rep := inv.rep
  cases action
  case run =>
    obtain ⟨now, visited, entry, rest, value, at_, present, rfl⟩ := inv.step_run taken
    simpa [State.inBatch, at_, Batch.expired] using owned
  all_goals simp only [Timers.step] at taken
  case create timer when interval =>
    split at taken
    · cases taken
      intro other found after
      rw [listed_iff]
      by_cases own : other = timer
      · subst own
        exact .inr (.inr (List.mem_append_right _ (List.mem_singleton_self _)))
      · simp only [Function.update_of_ne own] at after
        rcases listed_iff.mp (owned other found after) with inside | batched | waiting
        · exact .inl inside
        · exact .inr (.inl batched)
        · exact .inr (.inr (List.mem_append_left _ waiting))
    · cases taken
  case createElsewhere =>
    cases taken
    exact owned
  case addTimerInLoop timer clock =>
    split at taken
    · rename_i may
      cases taken
      exact owned.addTimerInLoop rep may.1 clock
    · cases taken
  case cancelInLoop id clock =>
    split at taken
    · cases taken
      exact owned.cancelInLoop rep id clock
    · cases taken
  case handleRead now =>
    split at taken
    · rename_i idle
      cases taken
      have before : Owned (s.queue.readTimerfd now) s.incoming [] := by
        rw [State.inBatch, idle] at owned
        exact owned
      exact before.getExpired now
    · cases taken
  case returned =>
    split at taken
    · rename_i now visited entry rest at_
      cases taken
      simpa [State.inBatch, at_, Batch.expired] using owned
    · cases taken
  case reset clock =>
    split at taken
    · rename_i now visited at_
      cases taken
      have parked : Owned s.queue s.incoming visited := by
        simpa [State.inBatch, at_, Batch.expired] using owned
      have listed : Rep s.queue s.numCreated s.incoming visited := by
        simpa [State.inBatch, at_, Batch.expired] using rep
      have calling : Rep { s.queue with callingExpiredTimers := false } s.numCreated s.incoming visited :=
        listed.congr rfl rfl rfl rfl
      intro timer found after
      simp only [(reset_frame _ _ _ _).heap] at after
      have kept := Owned.resetEntries (q := { s.queue with callingExpiredTimers := false }) parked calling now
        timer found after
      rw [listed_iff] at kept ⊢
      rw [(calling.reset_arms now clock).1]
      exact kept
    · cases taken

theorem reachable_owned (run : Reaches step Any (State.initial numCreated) s) :
    Owned s.queue s.incoming s.inBatch := by
  have both : Inv s ∧ Owned s.queue s.incoming s.inBatch := by
    apply run.keeps
    · refine ⟨Inv.initial numCreated, ?_⟩
      intro timer value present
      cases present
    · intro before action after held _ taken
      exact ⟨held.1.step taken, held.2.step held.1 taken⟩
  exact both.2

end Hvnetpp.Timers
