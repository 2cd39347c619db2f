import Hvnetpp.Timers.Model

namespace Hvnetpp.Timers

open Machine

section Update

variable {ι α : Type*} [DecidableEq ι] {f : ι → Option α} {key other : ι} {x y : α}

theorem some_of_update_some (found : Function.update f key (some y) other = some x) :
    other = key ∧ x = y ∨ f other = some x := by
  by_cases own : other = key
  · rw [own, Function.update_self] at found
    cases found
    exact .inl ⟨own, rfl⟩
  · rw [Function.update_of_ne own] at found
    exact .inr found

theorem some_of_update_none (found : Function.update f key none other = some x) : other ≠ key ∧ f other = some x := by
  by_cases own : other = key
  · rw [own, Function.update_self] at found
    cases found
  · rw [Function.update_of_ne own] at found
    exact ⟨own, found⟩

end Update

/-- The timers in the sets, in the batch and on their way in are different live objects, and
    `activeTimers_` is what `timers_` says. -/
structure Rep (q : TimerQueue) (numCreated : Nat) (incoming : List Nat) (batch : List Entry) : Prop where
  live : ∀ entry, entry ∈ q.timers ∨ entry ∈ batch →
    ∃ value, q.heap entry.timer = some value ∧ value.expiration = entry.expiration
  loose : ∀ timer ∈ incoming, ∃ value, q.heap timer = some value
  active : ∀ id, id ∈ q.activeTimers ↔ ∃ entry ∈ q.timers, entry.timer = id.timer ∧
    ∃ value, q.heap id.timer = some value ∧ value.sequence = id.sequence
  size : q.timers.size = q.activeTimers.size
  distinct : (q.timers.elems.map Entry.timer ++ (batch.map Entry.timer ++ incoming)).Nodup
  numbered : ∀ timer value, q.heap timer = some value → value.sequence ≤ numCreated ∧ timer < uintptrMax
  unique : ∀ timer other value value', q.heap timer = some value → q.heap other = some value' →
    value.sequence = value'.sequence → timer = other
  sound : q.failed = false

variable {q r : TimerQueue} {numCreated : Nat} {incoming : List Nat} {batch : List Entry}

theorem Rep.create (numCreated : Nat) : Rep .create numCreated [] [] where
  live := by rintro entry (member | member) <;> cases member
  loose := by intro timer member; cases member
  active := by
    intro id
    constructor
    · intro member
      cases member
    · rintro ⟨entry, member, _⟩
      cases member
  size := rfl
  distinct := List.nodup_nil
  numbered := by intro timer value present; cases present
  unique := by intro timer other value value' present; cases present
  sound := rfl

theorem Rep.congr (rep : Rep q numCreated incoming batch) (heap : r.heap = q.heap)
    (timers : r.timers = q.timers) (active : r.activeTimers = q.activeTimers)
    (failed : r.failed = q.failed) : Rep r numCreated incoming batch := by
  refine ⟨?_, ?_, ?_, ?_, ?_, ?_, ?_, ?_⟩
  · rw [heap, timers]
    exact rep.live
  · rw [heap]
    exact rep.loose
  · rw [heap, timers, active]
    exact rep.active
  · rw [timers, active]
    exact rep.size
  · rw [timers]
    exact rep.distinct
  · rw [heap]
    exact rep.numbered
  · rw [heap]
    exact rep.unique
  · rw [failed]
    exact rep.sound

theorem Rep.resetTimerfd (rep : Rep q numCreated incoming batch) (expiration clock : Int) :
    Rep (q.resetTimerfd expiration clock) numCreated incoming batch := rep.congr rfl rfl rfl rfl

/-- The operations that delete no timer and record no cancellation. -/
structure Keeps (q r : TimerQueue) : Prop where
  heap : r.heap = q.heap
  calling : r.callingExpiredTimers = q.callingExpiredTimers
  canceling : r.cancelingTimers = q.cancelingTimers

theorem Keeps.insertTimer (q : TimerQueue) (timer : Nat) (value : Timer) :
    Keeps q (Timers.insertTimer q timer value) := by
  simp only [Timers.insertTimer, TimerQueue.check]
  split <;> split <;> split <;> split <;> exact ⟨rfl, rfl, rfl⟩

theorem Keeps.trans {p : TimerQueue} (first : Keeps p q) (second : Keeps q r) : Keeps p r :=
  ⟨second.heap.trans first.heap, second.calling.trans first.calling, second.canceling.trans first.canceling⟩

theorem Keeps.resetTimerfd (q : TimerQueue) (expiration clock : Int) :
    Keeps q (q.resetTimerfd expiration clock) := ⟨rfl, rfl, rfl⟩

theorem Keeps.rearm (q : TimerQueue) (clock : Int) : Keeps q (q.rearm clock) := by
  unfold TimerQueue.rearm
  split
  · exact ⟨rfl, rfl, rfl⟩
  · split <;> exact ⟨rfl, rfl, rfl⟩

theorem Keeps.addTimerInLoop (q : TimerQueue) (timer : Nat) (clock : Int) :
    Keeps q (q.addTimerInLoop timer clock) := by
  cases present : q.heap timer with
  | none =>
    simp only [TimerQueue.addTimerInLoop, TimerQueue.insert, present]
    exact ⟨rfl, rfl, rfl⟩
  | some value =>
    have inserted := Keeps.insertTimer q timer value
    simp only [TimerQueue.addTimerInLoop, TimerQueue.insert, present]
    cases q.earliestChanged value.expiration with
    | false => exact inserted
    | true =>
      simp only [inserted.heap, present]
      exact inserted.trans (Keeps.resetTimerfd _ _ _)

theorem Keeps.getExpired (q : TimerQueue) (now : Int) : Keeps q (q.getExpired now) := by
  have fold : ∀ (entries : List Entry) (start : TimerQueue), Keeps q start →
      Keeps q (entries.foldl TimerQueue.eraseActive start) := by
    intro entries
    induction entries with
    | nil => exact fun _ kept => kept
    | cons entry rest hypothesis =>
      intro start kept
      apply hypothesis
      unfold TimerQueue.eraseActive
      split
      · exact ⟨kept.heap, kept.calling, kept.canceling⟩
      · simp only [TimerQueue.check]
        split <;> exact ⟨kept.heap, kept.calling, kept.canceling⟩
  exact fold _ _ ⟨rfl, rfl, rfl⟩

theorem check_of {holds : Prop} [Decidable holds] (h : holds) : q.check holds = q := if_pos h

def Unlisted (q : TimerQueue) (incoming : List Nat) (batch : List Entry) (timer : Nat) : Prop :=
  (∀ entry ∈ q.timers, entry.timer ≠ timer) ∧ (∀ entry ∈ batch, entry.timer ≠ timer) ∧ timer ∉ incoming

theorem unlisted_iff {timer : Nat} :
    Unlisted q incoming batch timer ↔
      timer ∉ q.timers.elems.map Entry.timer ++ (batch.map Entry.timer ++ incoming) := by
  simp [Unlisted, not_or]

theorem Rep.unlist_batch {entry : Entry} (rep : Rep q numCreated incoming (entry :: batch)) :
    Rep q numCreated incoming batch ∧ Unlisted q incoming batch entry.timer := by
  have distinct := rep.distinct
  rw [List.map_cons, List.cons_append, List.perm_middle.nodup_iff, List.nodup_cons] at distinct
  refine ⟨{ rep with live := ?_, distinct := distinct.2 }, unlisted_iff.mpr distinct.1⟩
  rintro other (member | member)
  · exact rep.live other (.inl member)
  · exact rep.live other (.inr (List.mem_cons_of_mem _ member))

theorem Rep.unlist_incoming {timer : Nat} (rep : Rep q numCreated incoming batch) (member : timer ∈ incoming) :
    Rep q numCreated (incoming.erase timer) batch ∧ Unlisted q (incoming.erase timer) batch timer := by
  have distinct := rep.distinct
  have moved : (q.timers.elems.map Entry.timer ++ (batch.map Entry.timer ++ incoming)).Perm
      (timer :: (q.timers.elems.map Entry.timer ++ (batch.map Entry.timer ++ incoming.erase timer))) := by
    have first := List.perm_cons_erase member
    rw [← List.append_assoc, ← List.append_assoc]
    exact (first.append_left _).trans List.perm_middle
  rw [moved.nodup_iff, List.nodup_cons] at distinct
  refine ⟨{ rep with loose := ?_, distinct := distinct.2 }, unlisted_iff.mpr distinct.1⟩
  intro other remains
  exact rep.loose other (List.mem_of_mem_erase remains)

theorem Rep.unlisted_of_free (rep : Rep q numCreated incoming batch) {timer : Nat} (free : q.heap timer = none) :
    Unlisted q incoming batch timer := by
  refine ⟨?_, ?_, ?_⟩
  · rintro entry member rfl
    obtain ⟨_, present, _⟩ := rep.live entry (.inl member)
    rw [free] at present
    cases present
  · rintro entry member rfl
    obtain ⟨_, present, _⟩ := rep.live entry (.inr member)
    rw [free] at present
    cases present
  · intro member
    obtain ⟨_, present⟩ := rep.loose timer member
    rw [free] at present
    cases present

section Elsewhere

variable {timer : Nat} (rep : Rep q numCreated incoming batch) (unlisted : Unlisted q incoming batch timer)
  (heap : ∀ other, other ≠ timer → r.heap other = q.heap other)

include rep unlisted heap

theorem Rep.live_elsewhere (entry : Entry) (member : entry ∈ q.timers ∨ entry ∈ batch) :
    ∃ value, r.heap entry.timer = some value ∧ value.expiration = entry.expiration := by
  rw [heap _ (member.elim (unlisted.1 entry) (unlisted.2.1 entry))]
  exact rep.live entry member

theorem Rep.loose_elsewhere (other : Nat) (member : other ∈ incoming) : ∃ value, r.heap other = some value := by
  have different : other ≠ timer := by
    rintro rfl
    exact unlisted.2.2 member
  rw [heap _ different]
  exact rep.loose other member

theorem Rep.active_elsewhere (id : ActiveTimer) : id ∈ q.activeTimers ↔ ∃ entry ∈ q.timers,
    entry.timer = id.timer ∧ ∃ value, r.heap id.timer = some value ∧ value.sequence = id.sequence := by
  have agree : ∀ entry ∈ q.timers, entry.timer = id.timer → r.heap id.timer = q.heap id.timer := by
    intro entry member same
    apply heap
    rw [← same]
    exact unlisted.1 entry member
  rw [rep.active id]
  constructor
  · rintro ⟨entry, member, same, found⟩
    rw [← agree entry member same] at found
    exact ⟨entry, member, same, found⟩
  · rintro ⟨entry, member, same, found⟩
    rw [agree entry member same] at found
    exact ⟨entry, member, same, found⟩

end Elsewhere

/-- The object of an unlisted timer changes, keeping its number, or goes away. -/
theorem Rep.reheap (rep : Rep q numCreated incoming batch) {timer : Nat}
    (unlisted : Unlisted q incoming batch timer)
    (heap : ∀ other, other ≠ timer → r.heap other = q.heap other)
    (own : ∀ found, r.heap timer = some found →
      ∃ old, q.heap timer = some old ∧ old.sequence = found.sequence)
    (timers : r.timers = q.timers) (active : r.activeTimers = q.activeTimers)
    (failed : r.failed = q.failed) : Rep r numCreated incoming batch := by
  have before : ∀ other found, r.heap other = some found →
      ∃ old, q.heap other = some old ∧ old.sequence = found.sequence := by
    intro other found present
    by_cases equal : other = timer
    · rw [equal] at present ⊢
      exact own found present
    · rw [heap other equal] at present
      exact ⟨found, present, rfl⟩
  refine ⟨?_, rep.loose_elsewhere unlisted heap, ?_, ?_, ?_, ?_, ?_, ?_⟩
  · rw [timers]
    exact rep.live_elsewhere unlisted heap
  · rw [active, timers]
    exact rep.active_elsewhere unlisted heap
  · rw [timers, active]
    exact rep.size
  · rw [timers]
    exact rep.distinct
  · intro other found present
    obtain ⟨old, was, number⟩ := before other found present
    rw [← number]
    exact rep.numbered other old was
  · intro first second value value' atFirst atSecond number
    obtain ⟨old, was, equal⟩ := before first _ atFirst
    obtain ⟨old', was', equal'⟩ := before second _ atSecond
    exact rep.unique first second old old' was was' (by rw [equal, equal', number])
  · rw [failed]
    exact rep.sound

theorem Rep.rewrite (rep : Rep q numCreated incoming batch) {timer : Nat} {value changed : Timer}
    (unlisted : Unlisted q incoming batch timer) (present : q.heap timer = some value)
    (number : changed.sequence = value.sequence) :
    Rep { q with heap := Function.update q.heap timer (some changed) } numCreated incoming batch := by
  refine rep.reheap unlisted (fun other different => Function.update_of_ne different _ _) ?_ rfl rfl rfl
  intro found at_
  simp only [Function.update_self, Option.some.injEq] at at_
  subst at_
  exact ⟨value, present, number.symm⟩

theorem delete_eq {timer : Nat} {value : Timer} (present : q.heap timer = some value) :
    q.delete timer = { q with heap := Function.update q.heap timer none } := by
  have some_ : (q.heap timer).isSome = true := by rw [present]; rfl
  rw [TimerQueue.delete, check_of some_]

theorem Rep.delete (rep : Rep q numCreated incoming batch) {timer : Nat} {value : Timer}
    (unlisted : Unlisted q incoming batch timer) (present : q.heap timer = some value) :
    Rep (q.delete timer) numCreated incoming batch := by
  rw [delete_eq present]
  refine rep.reheap unlisted (fun other different => Function.update_of_ne different _ _) ?_ rfl rfl rfl
  intro found at_
  simp at at_

theorem Rep.insertTimer_eq (rep : Rep q numCreated incoming batch) {timer : Nat} {value : Timer}
    (unlisted : Unlisted q incoming batch timer) :
    insertTimer q timer value = { q with
      timers := q.timers.insert ⟨value.expiration, timer⟩
      activeTimers := q.activeTimers.insert ⟨timer, value.sequence⟩ } := by
  have freshEntry : (⟨value.expiration, timer⟩ : Entry) ∉ q.timers := fun member =>
    unlisted.1 _ member rfl
  have freshActive : (⟨timer, value.sequence⟩ : ActiveTimer) ∉ q.activeTimers := by
    intro member
    obtain ⟨entry, present, same, _⟩ := (rep.active _).mp member
    exact unlisted.1 entry present same
  have sizes : (q.timers.insert ⟨value.expiration, timer⟩).size =
      (q.activeTimers.insert ⟨timer, value.sequence⟩).size := by
    rw [OrderedSet.size_insert freshEntry, OrderedSet.size_insert freshActive, rep.size]
  unfold insertTimer
  simp only [check_of rep.size, check_of freshEntry, check_of freshActive]
  exact check_of sizes

theorem Rep.insertTimer (rep : Rep q numCreated incoming batch) {timer : Nat} {value : Timer}
    (unlisted : Unlisted q incoming batch timer) (present : q.heap timer = some value) :
    Rep (Timers.insertTimer q timer value) numCreated incoming batch := by
  have freshEntry : (⟨value.expiration, timer⟩ : Entry) ∉ q.timers := fun member =>
    unlisted.1 _ member rfl
  have freshActive : (⟨timer, value.sequence⟩ : ActiveTimer) ∉ q.activeTimers := by
    intro member
    obtain ⟨entry, present, same, _⟩ := (rep.active _).mp member
    exact unlisted.1 entry present same
  rw [rep.insertTimer_eq unlisted]
  refine ⟨?_, rep.loose, ?_, ?_, ?_, rep.numbered, rep.unique, rep.sound⟩
  · rintro entry (member | member)
    · rcases OrderedSet.mem_insert.mp member with rfl | member
      · exact ⟨value, present, rfl⟩
      · exact rep.live entry (.inl member)
    · exact rep.live entry (.inr member)
  · intro id
    simp only [OrderedSet.mem_insert]
    constructor
    · rintro (rfl | member)
      · exact ⟨_, .inl rfl, rfl, value, present, rfl⟩
      · obtain ⟨entry, inside, rest⟩ := (rep.active id).mp member
        exact ⟨entry, .inr inside, rest⟩
    · rintro ⟨entry, rfl | member, same, found⟩
      · left
        obtain ⟨other, at_, number⟩ := found
        simp only at same
        rw [← same, present] at at_
        cases at_
        cases id
        simp only at same number
        rw [same, number]
      · exact .inr ((rep.active id).mpr ⟨entry, member, same, found⟩)
  · rw [OrderedSet.size_insert freshEntry, OrderedSet.size_insert freshActive, rep.size]
  · have perm := (OrderedSet.insert_perm freshEntry).map Entry.timer
    rw [(perm.append_right _).nodup_iff, List.map_cons, List.cons_append, List.nodup_cons]
    exact ⟨unlisted_iff.mp unlisted, rep.distinct⟩

theorem Rep.addTimerInLoop (rep : Rep q numCreated incoming batch) {timer : Nat} (member : timer ∈ incoming)
    (clock : Int) : Rep (q.addTimerInLoop timer clock) numCreated (incoming.erase timer) batch := by
  obtain ⟨value, present⟩ := rep.loose timer member
  obtain ⟨listed, unlisted⟩ := rep.unlist_incoming member
  have inserted := listed.insertTimer unlisted present
  have heap : (Timers.insertTimer q timer value).heap timer = some value := by
    rw [listed.insertTimer_eq unlisted]
    exact present
  simp only [TimerQueue.addTimerInLoop, TimerQueue.insert, present]
  cases q.earliestChanged value.expiration with
  | true =>
    simp only [heap]
    exact inserted.resetTimerfd _ _
  | false => exact inserted

theorem Rep.rearm (rep : Rep q numCreated incoming batch) (clock : Int) :
    Rep (q.rearm clock) numCreated incoming batch := by
  unfold TimerQueue.rearm
  split
  · exact rep.congr rfl rfl rfl rfl
  · rename_i earliest first
    obtain ⟨value, present, _⟩ := rep.live earliest (.inl (OrderedSet.mem_first first))
    simp only [present]
    exact rep.resetTimerfd _ _

theorem Rep.entry_eq (rep : Rep q numCreated incoming batch) {entry : Entry} {value : Timer}
    (member : entry ∈ q.timers) (present : q.heap entry.timer = some value) :
    entry = ⟨value.expiration, entry.timer⟩ := by
  obtain ⟨found, at_, expiration⟩ := rep.live entry (.inl member)
  rw [present] at at_
  cases at_
  rw [expiration]

theorem Rep.entry_of_active (rep : Rep q numCreated incoming batch) {id : TimerId}
    (scheduled : id ∈ q.activeTimers) : ∃ value, q.heap id.timer = some value ∧
      value.sequence = id.sequence ∧ (⟨value.expiration, id.timer⟩ : Entry) ∈ q.timers := by
  obtain ⟨entry, member, same, value, present, number⟩ := (rep.active id).mp scheduled
  refine ⟨value, present, number, ?_⟩
  rw [← same] at present ⊢
  rw [← rep.entry_eq member present]
  exact member

theorem Rep.unlist_active (rep : Rep q numCreated incoming batch) {id : TimerId} {value : Timer}
    (present : q.heap id.timer = some value) (number : value.sequence = id.sequence)
    (member : (⟨value.expiration, id.timer⟩ : Entry) ∈ q.timers) (timers : OrderedSet Entry)
    (active : OrderedSet ActiveTimer) (erased : timers = q.timers.erase ⟨value.expiration, id.timer⟩)
    (gone : active = q.activeTimers.erase id) :
    Rep { q with timers := timers, activeTimers := active } numCreated incoming batch ∧
      Unlisted { q with timers := timers, activeTimers := active } incoming batch id.timer := by
  have scheduled : id ∈ q.activeTimers := (rep.active id).mpr ⟨_, member, rfl, value, present, number⟩
  have distinct := rep.distinct
  have perm := (OrderedSet.erase_perm member).map Entry.timer
  rw [(perm.append_right _).nodup_iff, List.map_cons, List.cons_append, List.nodup_cons] at distinct
  subst erased
  subst gone
  refine ⟨⟨?_, rep.loose, ?_, ?_, distinct.2, rep.numbered, rep.unique, rep.sound⟩,
    unlisted_iff.mpr distinct.1⟩
  · rintro entry (inside | inside)
    · exact rep.live entry (.inl (OrderedSet.mem_erase.mp inside).2)
    · exact rep.live entry (.inr inside)
  · intro other
    simp only [OrderedSet.mem_erase, rep.active other]
    constructor
    · rintro ⟨different, entry, inside, same, found⟩
      refine ⟨entry, ⟨?_, inside⟩, same, found⟩
      rintro rfl
      obtain ⟨value', at_, number'⟩ := found
      simp only at same
      rw [← same, present] at at_
      cases at_
      apply different
      cases other
      cases id
      simp only at same number number'
      rw [same, ← number', number]
    · rintro ⟨entry, ⟨different, inside⟩, same, found⟩
      refine ⟨?_, entry, inside, same, found⟩
      rintro rfl
      apply different
      rw [← same] at present ⊢
      exact rep.entry_eq inside present
  · have first := OrderedSet.size_erase member
    have second := OrderedSet.size_erase scheduled
    have size := rep.size
    simp only
    omega

theorem Rep.removeActive (rep : Rep q numCreated incoming batch) {id : TimerId} {value : Timer}
    (present : q.heap id.timer = some value) (number : value.sequence = id.sequence)
    (member : (⟨value.expiration, id.timer⟩ : Entry) ∈ q.timers) (clock : Int) :
    Rep (q.removeActive id value clock) numCreated incoming batch := by
  obtain ⟨listed, unlisted⟩ := rep.unlist_active present number member _ _ rfl rfl
  have deleted := listed.delete unlisted present
  have some_ : (q.heap id.timer).isSome = true := by rw [present]; rfl
  simp only [TimerQueue.delete, check_of some_] at deleted
  simp only [TimerQueue.removeActive, TimerQueue.delete, check_of member, check_of some_]
  split
  · exact deleted.rearm clock
  · exact deleted

theorem Rep.cancelInLoop (rep : Rep q numCreated incoming batch) (id : TimerId) (clock : Int) :
    Rep (q.cancelInLoop id clock) numCreated incoming batch := by
  simp only [TimerQueue.cancelInLoop, check_of rep.size]
  split
  · rename_i scheduled
    obtain ⟨value, present, number, member⟩ := rep.entry_of_active scheduled
    simp only [present]
    exact rep.removeActive present number member clock
  · split
    · exact rep.congr rfl rfl rfl rfl
    · exact rep

/-- The loop of `getExpired`: every entry finds its timer in `activeTimers_` and takes it out. -/
theorem eraseActive_foldl (entries : List Entry) (q : TimerQueue)
    (live : ∀ entry ∈ entries, ∃ value, q.heap entry.timer = some value ∧
      (⟨entry.timer, value.sequence⟩ : ActiveTimer) ∈ q.activeTimers)
    (distinct : (entries.map Entry.timer).Nodup) :
    ∃ active, entries.foldl TimerQueue.eraseActive q = { q with activeTimers := active } ∧
      q.activeTimers.size = active.size + entries.length ∧
      ∀ id, id ∈ active ↔ id ∈ q.activeTimers ∧ ∀ entry ∈ entries, ∀ value,
        q.heap entry.timer = some value → id ≠ ⟨entry.timer, value.sequence⟩ := by
  induction entries generalizing q with
  | nil => exact ⟨q.activeTimers, rfl, rfl, by simp⟩
  | cons entry rest hypothesis =>
    obtain ⟨value, present, scheduled⟩ := live entry List.mem_cons_self
    rw [List.map_cons, List.nodup_cons] at distinct
    have first : q.eraseActive entry =
        { q with activeTimers := q.activeTimers.erase ⟨entry.timer, value.sequence⟩ } := by
      simp only [TimerQueue.eraseActive, present, check_of scheduled]
    obtain ⟨active, folded, size, members⟩ := hypothesis (q.eraseActive entry) (by
      rw [first]
      intro other member
      obtain ⟨value', at_, inside⟩ := live other (List.mem_cons_of_mem _ member)
      refine ⟨value', at_, OrderedSet.mem_erase.mpr ⟨?_, inside⟩⟩
      intro same
      apply distinct.1
      have equal : other.timer = entry.timer := congrArg ActiveTimer.timer same
      rw [← equal]
      exact List.mem_map_of_mem member) distinct.2
    refine ⟨active, ?_, ?_, ?_⟩
    · rw [List.foldl_cons, folded, first]
    · rw [first] at size
      have removed := OrderedSet.size_erase scheduled
      simp only [List.length_cons] at size ⊢
      omega
    · intro id
      rw [members id, first]
      simp only [OrderedSet.mem_erase, List.mem_cons, forall_eq_or_imp, present, Option.some.injEq,
        forall_eq']
      tauto

theorem Rep.getExpired (rep : Rep q numCreated incoming []) (now : Int) :
    Rep (q.getExpired now) numCreated incoming (q.expired now) := by
  have split : q.expired now ++ (q.timers.above (sentry now)).elems = q.timers.elems :=
    OrderedSet.below_append_above q.timers (sentry now)
  have inside : ∀ entry, entry ∈ q.timers ↔
      entry ∈ q.expired now ∨ entry ∈ q.timers.above (sentry now) := by
    intro entry
    rw [← OrderedSet.mem_elems, ← split, List.mem_append, OrderedSet.mem_elems]
  have distinct := rep.distinct
  rw [← split, List.map_append] at distinct
  simp only [List.map_nil, List.nil_append] at distinct
  have apart := (List.nodup_append.mp distinct).1
  obtain ⟨active, folded, size, members⟩ := eraseActive_foldl (q.expired now)
    { q with timers := q.timers.above (sentry now) } (by
      intro entry member
      obtain ⟨value, present, _⟩ := rep.live entry (.inl ((inside entry).mpr (.inl member)))
      exact ⟨value, present,
        (rep.active _).mpr ⟨entry, (inside entry).mpr (.inl member), rfl, value, present, rfl⟩⟩)
    (List.nodup_append.mp apart).1
  rw [TimerQueue.getExpired, folded]
  refine ⟨?_, rep.loose, ?_, ?_, ?_, rep.numbered, rep.unique, rep.sound⟩
  · rintro entry (member | member)
    · exact rep.live entry (.inl ((inside entry).mpr (.inr member)))
    · exact rep.live entry (.inl ((inside entry).mpr (.inl member)))
  · intro id
    rw [members id, rep.active id]
    constructor
    · rintro ⟨⟨entry, member, same, value, present, number⟩, spared⟩
      rcases (inside entry).mp member with gone | kept
      · have own := spared entry gone value (by rw [same]; exact present)
        apply absurd _ own
        cases id
        simp only at same number
        rw [same, number]
      · exact ⟨entry, kept, same, value, present, number⟩
    · rintro ⟨entry, kept, same, found⟩
      refine ⟨⟨entry, (inside entry).mpr (.inr kept), same, found⟩, ?_⟩
      rintro other gone value _ rfl
      have across := (List.nodup_append.mp apart).2.2 _ (List.mem_map_of_mem gone) _
        (List.mem_map_of_mem (OrderedSet.mem_elems.mpr kept))
      exact across same.symm
  · have total := congrArg List.length split
    have before := rep.size
    simp only [List.length_append, OrderedSet.size] at total before size ⊢
    omega
  · rw [← List.append_assoc]
    rw [← (List.perm_append_comm.append_right _).nodup_iff]
    exact distinct

@[simp] theorem restart_sequence (timer : Timer) (now : Int) :
    (timer.restart now).sequence = timer.sequence := by
  simp only [Timer.restart]
  split
  · split
    · split <;> rfl
    · rfl
  · rfl

/-- One turn of the loop in `reset`, whatever expiration `restart` computes. -/
inductive Turn (q : TimerQueue) (entry : Entry) : TimerQueue → Prop
  | restarted {value restarted : Timer} (present : q.heap entry.timer = some value)
      (number : restarted.sequence = value.sequence) :
      Turn q entry (insertTimer { q with heap := Function.update q.heap entry.timer (some restarted) } entry.timer
        restarted)
  | deleted {value : Timer} (present : q.heap entry.timer = some value) : Turn q entry (q.delete entry.timer)
  | dangling (absent : q.heap entry.timer = none) : Turn q entry q.fail

theorem resetEntry_turn (now : Int) (q : TimerQueue) (entry : Entry) : Turn q entry (q.resetEntry now entry) := by
  unfold TimerQueue.resetEntry
  split
  · rename_i absent
    exact .dangling absent
  · rename_i value present
    split
    · exact .restarted present (restart_sequence value now)
    · exact .deleted present

theorem Rep.turn {entry : Entry} (rep : Rep q numCreated incoming (entry :: batch)) (turn : Turn q entry r) :
    Rep r numCreated incoming batch := by
  obtain ⟨listed, unlisted⟩ := rep.unlist_batch
  cases turn with
  | restarted present number =>
    rename_i value restarted
    exact (listed.rewrite unlisted present number).insertTimer unlisted (Function.update_self _ _ _)
  | deleted present => exact listed.delete unlisted present
  | dangling absent =>
    obtain ⟨value, present, _⟩ := rep.live entry (.inr List.mem_cons_self)
    rw [absent] at present
    cases present

theorem Turn.frame {entry : Entry} (turn : Turn q entry r) :
    r.callingExpiredTimers = q.callingExpiredTimers ∧ r.cancelingTimers = q.cancelingTimers ∧
    ∀ other, other ≠ entry.timer → r.heap other = q.heap other := by
  cases turn with
  | restarted present number =>
    rename_i value restarted
    have kept := Keeps.insertTimer { q with heap := Function.update q.heap entry.timer (some restarted) } entry.timer
      restarted
    refine ⟨kept.calling, kept.canceling, ?_⟩
    intro other different
    simp only [kept.heap, Function.update_of_ne different]
  | deleted present =>
    rw [delete_eq present]
    exact ⟨rfl, rfl, fun _ different => Function.update_of_ne different _ _⟩
  | dangling _ => exact ⟨rfl, rfl, fun _ _ => rfl⟩

theorem Turn.numbers {entry : Entry} (turn : Turn q entry r) {timer : Nat} {value : Timer}
    (present : r.heap timer = some value) : ∃ old, q.heap timer = some old ∧ old.sequence = value.sequence := by
  by_cases same : timer = entry.timer
  · subst same
    cases turn with
    | restarted found number =>
      rename_i old restarted
      simp only [(Keeps.insertTimer _ _ _).heap, Function.update_self, Option.some.injEq] at present
      subst present
      exact ⟨old, found, number.symm⟩
    | deleted found =>
      rw [delete_eq found] at present
      simp only [Function.update_self] at present
      cases present
    | dangling _ => exact ⟨value, present, rfl⟩
  · rw [turn.frame.2.2 timer same] at present
    exact ⟨value, present, rfl⟩

section Turns

variable {turn : TimerQueue → Entry → TimerQueue} (each : ∀ q entry, Turn q entry (turn q entry))

include each

theorem Rep.turns (rep : Rep q numCreated incoming batch) : Rep (batch.foldl turn q) numCreated incoming [] := by
  induction batch generalizing q with
  | nil => exact rep
  | cons entry rest hypothesis => exact hypothesis (rep.turn (each q entry))

theorem turns_frame (entries : List Entry) (q : TimerQueue) :
    (entries.foldl turn q).callingExpiredTimers = q.callingExpiredTimers ∧
    (entries.foldl turn q).cancelingTimers = q.cancelingTimers := by
  induction entries generalizing q with
  | nil => exact ⟨rfl, rfl⟩
  | cons entry rest hypothesis =>
    obtain ⟨calling, canceling, _⟩ := (each q entry).frame
    obtain ⟨calling', canceling'⟩ := hypothesis (turn q entry)
    exact ⟨calling'.trans calling, canceling'.trans canceling⟩

theorem turns_apart (entries : List Entry) (q : TimerQueue) {timer : Nat}
    (apart : ∀ entry ∈ entries, entry.timer ≠ timer) : (entries.foldl turn q).heap timer = q.heap timer := by
  induction entries generalizing q with
  | nil => rfl
  | cons head rest hypothesis =>
    rw [List.foldl_cons, hypothesis _ fun entry member => apart entry (List.mem_cons_of_mem _ member)]
    exact (each q head).frame.2.2 timer (apart head List.mem_cons_self).symm

theorem turns_numbers {entries : List Entry} {timer : Nat} {value : Timer}
    (present : (entries.foldl turn q).heap timer = some value) :
    ∃ old, q.heap timer = some old ∧ old.sequence = value.sequence := by
  induction entries generalizing q with
  | nil => exact ⟨value, present, rfl⟩
  | cons entry rest hypothesis =>
    obtain ⟨middle, found, number⟩ := hypothesis present
    obtain ⟨old, first, number'⟩ := (each q entry).numbers found
    exact ⟨old, first, number'.trans number⟩

end Turns

theorem Rep.resetEntries (rep : Rep q numCreated incoming batch) (now : Int) :
    Rep (batch.foldl (TimerQueue.resetEntry now) q) numCreated incoming [] := rep.turns (resetEntry_turn now)

theorem Rep.reset (rep : Rep q numCreated incoming batch) (now clock : Int) :
    Rep (q.reset batch now clock) numCreated incoming [] := by
  have folded := rep.resetEntries now
  simp only [TimerQueue.reset]
  split
  · exact folded
  · rename_i earliest first
    obtain ⟨value, present, _⟩ := folded.live earliest (.inl (OrderedSet.mem_first first))
    simp only [present]
    split
    · exact folded.resetTimerfd _ _
    · exact folded

def State.inBatch (s : State) : List Entry :=
  match s.batch with
  | none => []
  | some batch => batch.expired

structure Inv (s : State) : Prop where
  rep : Rep s.queue s.numCreated s.incoming s.inBatch
  calling : s.queue.callingExpiredTimers = s.batch.isSome

variable {s t : State}

theorem Rep.create_timer (rep : Rep q numCreated incoming batch) {timer : Nat} {value : Timer}
    (free : q.heap timer = none) (bound : timer < uintptrMax) (number : value.sequence = numCreated + 1) :
    Rep { q with heap := Function.update q.heap timer (some value) } (numCreated + 1)
      (incoming ++ [timer]) batch := by
  have unlisted := rep.unlisted_of_free free
  have heap : ∀ other, other ≠ timer → Function.update q.heap timer (some value) other = q.heap other :=
    fun other different => Function.update_of_ne different _ _
  have newer : ∀ other found, q.heap other = some found → found.sequence ≠ value.sequence := by
    intro other found present
    have := (rep.numbered other found present).1
    omega
  refine ⟨rep.live_elsewhere unlisted heap, ?_, rep.active_elsewhere unlisted heap, rep.size, ?_, ?_, ?_, rep.sound⟩
  · intro other member
    rcases List.mem_append.mp member with old | new
    · exact rep.loose_elsewhere unlisted heap other old
    · rw [List.mem_singleton.mp new]
      exact ⟨value, Function.update_self _ _ _⟩
  · have fresh := unlisted_iff.mp unlisted
    rw [← List.append_assoc, ← List.append_assoc]
    rw [← List.append_assoc] at fresh
    have last := (List.perm_append_singleton timer
      (q.timers.elems.map Entry.timer ++ batch.map Entry.timer ++ incoming))
    rw [last.nodup_iff, List.nodup_cons]
    refine ⟨fresh, ?_⟩
    rw [List.append_assoc]
    exact rep.distinct
  · intro other found present
    cases some_of_update_some present with
    | inl own =>
      rw [own.1, own.2]
      exact ⟨by omega, bound⟩
    | inr earlier =>
      have := rep.numbered other found earlier
      exact ⟨by omega, this.2⟩
  · intro first second v v' atFirst atSecond equal
    cases some_of_update_some atFirst with
    | inl own =>
      cases some_of_update_some atSecond with
      | inl own' => rw [own.1, own'.1]
      | inr earlier =>
        rw [own.2] at equal
        exact absurd equal.symm (newer _ _ earlier)
    | inr earlier =>
      cases some_of_update_some atSecond with
      | inl own' =>
        rw [own'.2] at equal
        exact absurd equal (newer _ _ earlier)
      | inr earlier' => exact rep.unique _ _ _ _ earlier earlier' equal

theorem Rep.more (rep : Rep q numCreated incoming batch) : Rep q (numCreated + 1) incoming batch :=
  { rep with
    numbered := by
      intro timer value present
      obtain ⟨number, bound⟩ := rep.numbered timer value present
      exact ⟨by omega, bound⟩ }

theorem Inv.initial (numCreated : Nat) : Inv (State.initial numCreated) := ⟨Rep.create numCreated, rfl⟩

/-- `cancelInLoop` deletes an active timer, and notes any other id while a batch runs. -/
theorem Rep.cancelInLoop_cases (rep : Rep q numCreated incoming batch) (id : TimerId) (clock : Int) :
    (q.cancelInLoop id clock).callingExpiredTimers = q.callingExpiredTimers ∧
    ((id ∈ q.activeTimers ∧ (q.cancelInLoop id clock).heap = Function.update q.heap id.timer none ∧
        (q.cancelInLoop id clock).cancelingTimers = q.cancelingTimers) ∨
      (id ∉ q.activeTimers ∧ (q.cancelInLoop id clock).heap = q.heap ∧
        (q.cancelInLoop id clock).cancelingTimers =
          if q.callingExpiredTimers then q.cancelingTimers.insert id else q.cancelingTimers)) := by
  simp only [TimerQueue.cancelInLoop, check_of rep.size]
  split
  · rename_i scheduled
    obtain ⟨value, present, number, member⟩ := rep.entry_of_active scheduled
    simp only [present, TimerQueue.removeActive, TimerQueue.delete, check_of member]
    split
    · have kept := Keeps.rearm { q with
        heap := Function.update q.heap id.timer none
        timers := q.timers.erase ⟨value.expiration, id.timer⟩
        activeTimers := q.activeTimers.erase id } clock
      exact ⟨kept.calling, .inl ⟨scheduled, kept.heap, kept.canceling⟩⟩
    · exact ⟨rfl, .inl ⟨scheduled, rfl, rfl⟩⟩
  · rename_i unscheduled
    split
    · exact ⟨rfl, .inr ⟨unscheduled, rfl, rfl⟩⟩
    · exact ⟨rfl, .inr ⟨unscheduled, rfl, rfl⟩⟩

theorem Rep.cancelInLoop_present (rep : Rep q numCreated incoming batch) {id : TimerId} {clock : Int} {timer : Nat}
    {value : Timer} (after : (q.cancelInLoop id clock).heap timer = some value) : q.heap timer = some value := by
  cases (rep.cancelInLoop_cases id clock).2 with
  | inl found =>
    rw [found.2.1] at after
    by_cases own : timer = id.timer
    · rw [own, Function.update_self] at after
      cases after
    · rw [Function.update_of_ne own] at after
      exact after
  | inr absent =>
    rw [absent.2.1] at after
    exact after

/-- Only the timer with the number of the id is deleted. -/
theorem Rep.cancelInLoop_spares (rep : Rep q numCreated incoming batch) {id : TimerId} (clock : Int) {timer : Nat}
    {value : Timer} (present : q.heap timer = some value) (other : id ≠ ⟨timer, value.sequence⟩) :
    (q.cancelInLoop id clock).heap timer = some value := by
  cases (rep.cancelInLoop_cases id clock).2 with
  | inl found =>
    obtain ⟨active, heap, _⟩ := found
    obtain ⟨own, there, number, _⟩ := rep.entry_of_active active
    have apart : timer ≠ id.timer := by
      intro equal
      rw [← equal, present] at there
      cases there
      apply other
      rw [equal, number]
    rw [heap, Function.update_of_ne apart]
    exact present
  | inr absent =>
    rw [absent.2.1]
    exact present

theorem reset_frame (q : TimerQueue) (expired : List Entry) (now clock : Int) :
    Keeps (expired.foldl (TimerQueue.resetEntry now) q) (q.reset expired now clock) := by
  simp only [TimerQueue.reset]
  split
  · exact ⟨rfl, rfl, rfl⟩
  · split
    · exact ⟨rfl, rfl, rfl⟩
    · split <;> exact ⟨rfl, rfl, rfl⟩

theorem Inv.step (inv : Inv s) {action : Action} (taken : step s action = some t) : Inv t := by
  have rep := inv.rep
  have calling := inv.calling
  cases action <;> simp only [Timers.step] at taken
  case create timer when interval =>
    split at taken
    · rename_i fresh
      cases taken
      exact ⟨rep.create_timer fresh.1 fresh.2.2 rfl, calling⟩
    · cases taken
  case createElsewhere =>
    cases taken
    exact ⟨rep.more, calling⟩
  case addTimerInLoop timer clock =>
    split at taken
    · rename_i may
      cases taken
      exact ⟨rep.addTimerInLoop may.1 clock, (Keeps.addTimerInLoop _ _ _).calling.trans calling⟩
    · cases taken
  case cancelInLoop id clock =>
    split at taken
    · cases taken
      exact ⟨rep.cancelInLoop id clock, (rep.cancelInLoop_cases id clock).1.trans calling⟩
    · cases taken
  case handleRead now =>
    split at taken
    · rename_i none
      cases taken
      have before : Rep s.queue s.numCreated s.incoming [] := by
        simpa only [State.inBatch, none] using rep
      have expired := (before.congr (r := s.queue.readTimerfd now) rfl rfl rfl rfl).getExpired now
      exact ⟨expired.congr rfl rfl rfl rfl, rfl⟩
    · cases taken
  case run =>
    split at taken
    · rename_i now visited entry rest at_
      cases taken
      have listed : entry ∈ s.inBatch := by simp [State.inBatch, at_, Batch.expired]
      obtain ⟨value, present, _⟩ := rep.live entry (.inr listed)
      simp only [State.startEntry, present]
      refine ⟨?_, ?_⟩
      · simpa [State.inBatch, at_, Batch.expired] using rep
      · simpa [at_] using calling
    · cases taken
  case returned =>
    split at taken
    · rename_i now visited entry rest at_
      cases taken
      refine ⟨?_, ?_⟩
      · simpa [State.inBatch, at_, Batch.expired] using rep
      · simpa [at_] using calling
    · cases taken
  case reset clock =>
    split at taken
    · rename_i now visited at_
      cases taken
      have before : Rep { s.queue with callingExpiredTimers := false } s.numCreated s.incoming visited := by
        have listed : Rep s.queue s.numCreated s.incoming visited := by
          simpa [State.inBatch, at_, Batch.expired] using rep
        exact listed.congr rfl rfl rfl rfl
      refine ⟨before.reset now clock, ?_⟩
      rw [(reset_frame _ _ _ _).calling, (turns_frame (resetEntry_turn now) _ _).1]
      rfl
    · cases taken

theorem reachable_inv {numCreated : Nat} (run : Reaches step Any (State.initial numCreated) s) : Inv s :=
  run.keeps (Inv.initial numCreated) fun _ _ _ inv _ taken => inv.step taken

end Hvnetpp.Timers
