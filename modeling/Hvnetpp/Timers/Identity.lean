import Mathlib.Data.Fintype.Basic
import Hvnetpp.Timers.CrossThread
import Hvnetpp.Timers.Due

namespace Hvnetpp.Timers

open Machine

/-- A timer lives on unless it is cancelled under its own id, or it is a one-shot timer at the end of its
    batch. -/
theorem Inv.survives {s t : State} (inv : Inv s) {action : Action} (taken : Timers.step s action = some t)
    {timer : Nat} {value : Timer} (present : s.queue.heap timer = some value)
    (uncancelled : ∀ clock, action ≠ .cancelInLoop ⟨timer, value.sequence⟩ clock)
    (unnoted : (⟨timer, value.sequence⟩ : TimerId) ∉ s.queue.cancelingTimers)
    (repeats : ∀ clock, action = .reset clock → ∀ entry ∈ s.inBatch, entry.timer = timer → value.repeat_ = true) :
    ∃ kept, t.queue.heap timer = some kept ∧ kept.sequence = value.sequence := by
  have same : t.queue.heap = s.queue.heap → ∃ kept, t.queue.heap timer = some kept ∧ kept.sequence = value.sequence := by
    intro heap
    rw [heap]
    exact ⟨value, present, rfl⟩
  cases action
  case run =>
    obtain ⟨_, _, _, _, _, _, _, rfl⟩ := inv.step_run taken
    exact same rfl
  case handleRead now =>
    obtain ⟨_, rfl⟩ := step_handleRead taken
    exact same (Keeps.getExpired _ _).heap
  case cancelInLoop id clock =>
    obtain ⟨_, rfl⟩ := step_cancelInLoop taken
    refine ⟨value, inv.rep.cancelInLoop_spares clock present ?_, rfl⟩
    intro own
    apply uncancelled clock
    rw [own]
  case reset clock =>
    by_cases batched : ∃ entry ∈ s.inBatch, entry.timer = timer
    · obtain ⟨entry, listed, equal⟩ := batched
      subst equal
      have back := inv.reset_reschedules taken listed present (repeats clock rfl entry listed rfl) unnoted
      obtain ⟨kept, there, number, _⟩ := (inv.step taken).rep.entry_of_active back
      exact ⟨kept, there, number⟩
    · simp only [Timers.step] at taken
      split at taken
      · rename_i now visited at_
        cases taken
        refine ⟨value, ?_, rfl⟩
        simp only [(reset_frame _ _ _ _).heap]
        rw [turns_apart (resetEntry_turn now)]
        · exact present
        · intro entry member equal
          apply batched
          refine ⟨entry, ?_, equal⟩
          simp [State.inBatch, at_, Batch.expired, member]
      · cases taken
  all_goals simp only [Timers.step] at taken
  case createElsewhere =>
    cases taken
    exact same rfl
  case create other when interval =>
    split at taken
    · rename_i fresh
      cases taken
      have apart : timer ≠ other := by
        intro equal
        rw [equal, fresh.1] at present
        cases present
      exact ⟨value, (Function.update_of_ne apart _ _).trans present, rfl⟩
    · cases taken
  case addTimerInLoop other clock =>
    split at taken
    · cases taken
      exact same (Keeps.addTimerInLoop _ _ _).heap
    · cases taken
  case returned =>
    split at taken
    · cases taken
      exact same rfl
    · cases taken

variable {ι : Type}

/-- The system with a record of `addTimer`: for each thread the timer that its call in progress has created, by
    address and number, and for every call that has returned what it had created and the id it returned, none if
    the number was read from a deleted timer. -/
structure Naming (ι : Type) where
  system : System ι
  created : ι → Option TimerId
  returned : List (TimerId × Option TimerId)

def Naming.initial (threadId : ι) (mapped : Bool) (numCreated : Nat) : Naming ι :=
  { system := .initial threadId mapped numCreated, created := fun _ => none, returned := [] }

/-- `TimerId(timer, timer->sequence())`. -/
def System.readId (s : System ι) (timer : Nat) : Option TimerId :=
  (s.history.timers.queue.heap timer).map fun value => ⟨timer, value.sequence⟩

section Steps

variable [DecidableEq ι]

def Naming.note (n : Naming ι) (next : System ι) : Call ι → Naming ι
  | .addTimer thread timer _ _ _ =>
    let id : TimerId := ⟨timer, n.system.history.timers.numCreated + 1⟩
    if thread = n.system.loop.threadId then { n with returned := n.returned ++ [(id, next.readId timer)] }
    else { n with created := Function.update n.created thread (some id) }
  | .added thread =>
    match n.created thread with
    | some id =>
      { n with
        created := Function.update n.created thread none
        returned := n.returned ++ [(id, n.system.readId id.timer)] }
    | none => n
  | _ => n

def Naming.step (n : Naming ι) (call : Call ι) : Option (Naming ι) :=
  (n.system.step call).map fun next => { n.note next call with system := next }

/-- No `reset` deletes a one-shot timer while the `addTimer` that created it is still in progress. -/
def Outlives (n : Naming ι) : Call ι → Prop
  | .reset _ => ∀ thread, ∀ id ∈ n.created thread, ∀ entry ∈ n.system.history.timers.inBatch, entry.timer = id.timer →
    ∀ value ∈ n.system.history.timers.queue.heap id.timer, value.repeat_ = true
  | _ => True

instance [Fintype ι] (n : Naming ι) : (call : Call ι) → Decidable (Outlives n call)
  | .reset _ => inferInstanceAs (Decidable (∀ thread, ∀ id ∈ n.created thread,
      ∀ entry ∈ n.system.history.timers.inBatch, entry.timer = id.timer →
      ∀ value ∈ n.system.history.timers.queue.heap id.timer, value.repeat_ = true))
  | .loop _ | .addTimer _ _ _ _ _ | .added _ | .cancel _ _ _ | .execute _ | .handleRead _ | .run | .returned
  | .elsewhere => isTrue trivial

end Steps

/-- A timer whose `addTimer` is in progress is alive under the number it was created with, and nobody has its
    id yet. -/
structure Faithful (n : Naming ι) : Prop where
  inv : Inv n.system.history.timers
  adding : ∀ thread, n.system.adding thread = (n.created thread).map ActiveTimer.timer
  alive : ∀ thread id, n.created thread = some id →
    ∃ value, n.system.history.timers.queue.heap id.timer = some value ∧ value.sequence = id.sequence
  apart : ∀ thread other id id', n.created thread = some id → n.created other = some id' →
    id.sequence = id'.sequence → thread = other
  unknown : ∀ thread id, n.created thread = some id → ∀ known ∈ n.system.ids, known.sequence ≠ id.sequence
  known : ∀ id ∈ n.system.ids, id.sequence ≤ n.system.history.timers.numCreated
  queued : ∀ functor id, n.system.requests functor = some (.cancelInLoop id) → id ∈ n.system.ids
  noted : ∀ id ∈ n.system.history.timers.queue.cancelingTimers, id ∈ n.system.ids
  faithful : ∀ record ∈ n.returned, record.2 = some record.1

variable {n : Naming ι}

theorem Faithful.initial (threadId : ι) (mapped : Bool) (numCreated : Nat) :
    Faithful (Naming.initial threadId mapped numCreated) where
  inv := Inv.initial numCreated
  adding := fun _ => rfl
  alive := fun _ _ absent => nomatch absent
  apart := fun _ _ _ _ absent => nomatch absent
  unknown := fun _ _ absent => nomatch absent
  known := fun _ member => nomatch member
  queued := fun _ _ request => nomatch request
  noted := fun _ member => nomatch member
  faithful := fun _ member => nomatch member

theorem Faithful.bounded (held : Faithful n) {thread : ι} {id : TimerId} (created : n.created thread = some id) :
    id.sequence ≤ n.system.history.timers.numCreated := by
  obtain ⟨value, present, number⟩ := held.alive thread id created
  rw [← number]
  exact (held.inv.rep.numbered _ _ present).1

/-- An operation of the queue deletes no timer whose `addTimer` is in progress. -/
theorem Faithful.act (held : Faithful n) {action : Action} {next : System ι} (acted : n.system.act action = some next)
    (returned : ∀ id clock, action = .cancelInLoop id clock → id ∈ n.system.ids)
    (outlives : ∀ clock, action = .reset clock → ∀ thread, ∀ id ∈ n.created thread,
      ∀ entry ∈ n.system.history.timers.inBatch, entry.timer = id.timer →
      ∀ value ∈ n.system.history.timers.queue.heap id.timer, value.repeat_ = true) :
    Faithful { n with system := next } := by
  obtain ⟨history, moved, rfl⟩ := Option.map_eq_some_iff.mp acted
  obtain ⟨after, taken, rfl⟩ := Option.map_eq_some_iff.mp moved
  have aged := held.inv.ages taken
  refine { held with inv := held.inv.step taken, alive := ?_, known := ?_, noted := ?_ }
  · intro thread id created
    obtain ⟨value, present, number⟩ := held.alive thread id created
    have own : (⟨id.timer, value.sequence⟩ : TimerId) ∉ n.system.ids := by
      intro member
      exact held.unknown thread id created _ member number
    obtain ⟨kept, there, same⟩ := held.inv.survives taken present
      (fun clock equal => own (returned _ clock equal)) (fun member => own (held.noted _ member))
      (fun clock equal entry listed twin => outlives clock equal thread id created entry listed twin value present)
    exact ⟨kept, there, same.trans number⟩
  · intro id member
    exact (held.known id member).trans aged.created
  · intro id member
    cases held.inv.step_notes taken member with
    | inl before => exact held.noted id before
    | inr called =>
      obtain ⟨clock, equal⟩ := called
      exact returned id clock equal

theorem Faithful.read (held : Faithful n) {clock : Int} {next : System ι} (read : n.system.read clock = some next) :
    Faithful { n with system := next } ∧ next.ids = n.system.ids ∧ next.history = n.system.history := by
  unfold System.read at read
  split at read
  · cases read
    exact ⟨{ held with }, rfl, rfl⟩
  · cases read

theorem Faithful.addTimerInLoop (held : Faithful n) {timer : Nat} {clock : Int} {next : System ι}
    (moved : n.system.addTimerInLoop timer clock = some next) :
    Faithful { n with system := next } ∧ next.history.timers.queue.heap = n.system.history.timers.queue.heap := by
  obtain ⟨middle, read, acted⟩ := Option.bind_eq_some_iff.mp moved
  obtain ⟨faithful, _, history⟩ := held.read read
  have after := faithful.act acted (fun _ _ equal => by cases equal) (fun _ equal => by cases equal)
  refine ⟨after, ?_⟩
  obtain ⟨later, noted, rfl⟩ := Option.map_eq_some_iff.mp acted
  obtain ⟨timers, taken, rfl⟩ := Option.map_eq_some_iff.mp noted
  simp only [Timers.step] at taken
  split at taken
  · cases taken
    show (middle.history.timers.queue.addTimerInLoop timer clock).heap = _
    rw [(Keeps.addTimerInLoop _ _ _).heap, history]
  · cases taken

theorem Faithful.cancelInLoop (held : Faithful n) {id : TimerId} {clock : Int} (known : id ∈ n.system.ids)
    {next : System ι} (moved : n.system.cancelInLoop id clock = some next) : Faithful { n with system := next } := by
  obtain ⟨middle, read, moved⟩ := Option.bind_eq_some_iff.mp moved
  obtain ⟨after, acted, rfl⟩ := Option.map_eq_some_iff.mp moved
  obtain ⟨faithful, ids, _⟩ := held.read read
  have settled := faithful.act acted
    (fun _ _ equal => by
      cases equal
      show id ∈ middle.ids
      rw [ids]
      exact known)
    (fun _ equal => by cases equal)
  exact { settled with }

/-- `addTimer` reads back the number of the live timer that it created. -/
theorem Faithful.returnId (held : Faithful n) (id : TimerId) {value : Timer}
    (present : n.system.history.timers.queue.heap id.timer = some value) (number : value.sequence = id.sequence)
    (others : ∀ thread other, n.created thread = some other → other.sequence ≠ id.sequence) :
    n.system.readId id.timer = some id ∧
    Faithful { n with
      system := n.system.returnId id.timer
      returned := n.returned ++ [(id, n.system.readId id.timer)] } := by
  have read : n.system.readId id.timer = some id := by
    rw [System.readId, present, Option.map_some, number]
  have returns : n.system.returnId id.timer = { n.system with ids := n.system.ids ++ [id] } := by
    simp only [System.returnId, present, number]
  refine ⟨read, ?_⟩
  rw [returns]
  refine { held with unknown := ?_, known := ?_, queued := ?_, noted := ?_, faithful := ?_ }
  · intro thread other created known member
    cases List.mem_append.mp member with
    | inl earlier => exact held.unknown thread other created known earlier
    | inr last =>
      rw [List.mem_singleton.mp last]
      exact (others thread other created).symm
  · intro known member
    cases List.mem_append.mp member with
    | inl earlier => exact held.known known earlier
    | inr last =>
      rw [List.mem_singleton.mp last, ← number]
      exact (held.inv.rep.numbered _ _ present).1
  · intro functor other request
    exact List.mem_append_left _ (held.queued functor other request)
  · intro other member
    exact List.mem_append_left _ (held.noted other member)
  · intro record member
    cases List.mem_append.mp member with
    | inl earlier => exact held.faithful record earlier
    | inr last =>
      rw [List.mem_singleton.mp last]
      exact read

theorem act_create {s next : System ι} {timer : Nat} {when interval : Int}
    (acted : s.act (.create timer when interval) = some next) :
    next.loop = s.loop ∧ next.ids = s.ids ∧ next.adding = s.adding ∧
    next.history.timers.queue.heap timer = some (.create when interval (s.history.timers.numCreated + 1)) := by
  obtain ⟨history, moved, rfl⟩ := Option.map_eq_some_iff.mp acted
  obtain ⟨after, taken, rfl⟩ := Option.map_eq_some_iff.mp moved
  simp only [Timers.step] at taken
  split at taken
  · cases taken
    exact ⟨rfl, rfl, rfl, Function.update_self _ _ _⟩
  · cases taken

section Steps

variable [DecidableEq ι]

theorem Faithful.queueInLoop (held : Faithful n) {thread : ι} {request : Request}
    (returned : ∀ id, request = .cancelInLoop id → id ∈ n.system.ids) {next : System ι}
    (moved : n.system.queueInLoop thread request = some next) :
    Faithful { n with system := next } ∧ next.history = n.system.history ∧ next.ids = n.system.ids := by
  obtain ⟨loop, _, rfl⟩ := Option.map_eq_some_iff.mp moved
  refine ⟨{ held with queued := ?_ }, rfl, rfl⟩
  intro functor id waiting
  by_cases own : functor = ⟨thread, n.system.loop.calls thread⟩
  · simp only [own, Function.update_self, Option.some.injEq] at waiting
    exact returned id waiting
  · simp only [Function.update_of_ne own] at waiting
    exact held.queued functor id waiting

/-- A call has created a timer with a number that no other call and no id has. -/
theorem Faithful.enter (held : Faithful n) (thread : ι) (id : TimerId) {value : Timer}
    (present : n.system.history.timers.queue.heap id.timer = some value) (number : value.sequence = id.sequence)
    (others : ∀ other known, n.created other = some known → known.sequence ≠ id.sequence)
    (fresh : ∀ known ∈ n.system.ids, known.sequence ≠ id.sequence) :
    Faithful { n with
      system := { n.system with adding := Function.update n.system.adding thread (some id.timer) }
      created := Function.update n.created thread (some id) } := by
  refine { held with adding := ?_, alive := ?_, apart := ?_, unknown := ?_ }
  · intro other
    by_cases mine : other = thread
    · subst mine
      simp only [Function.update_self, Option.map_some]
    · simp only [Function.update_of_ne mine]
      exact held.adding other
  · intro other known call
    cases some_of_update_some call with
    | inl own =>
      rw [own.2]
      exact ⟨value, present, number⟩
    | inr earlier => exact held.alive other known earlier
  · intro first second known known' call call' equal
    cases some_of_update_some call with
    | inl own =>
      cases some_of_update_some call' with
      | inl own' => rw [own.1, own'.1]
      | inr earlier =>
        rw [own.2] at equal
        exact absurd equal.symm (others second known' earlier)
    | inr earlier =>
      cases some_of_update_some call' with
      | inl own' =>
        rw [own'.2] at equal
        exact absurd equal (others first known earlier)
      | inr earlier' => exact held.apart first second known known' earlier earlier' equal
  · intro other known call
    cases some_of_update_some call with
    | inl own =>
      rw [own.2]
      exact fresh
    | inr earlier => exact held.unknown other known earlier

/-- A call is over: the thread is in none, and the others are in calls of their own. -/
theorem Faithful.leave (held : Faithful n) (thread : ι) :
    Faithful { n with
      system := { n.system with adding := Function.update n.system.adding thread none }
      created := Function.update n.created thread none } := by
  refine { held with adding := ?_, alive := ?_, apart := ?_, unknown := ?_ }
  · intro other
    by_cases mine : other = thread
    · subst mine
      simp only [Function.update_self, Option.map_none]
    · simp only [Function.update_of_ne mine]
      exact held.adding other
  · intro other known call
    exact held.alive other known (some_of_update_none call).2
  · intro first second known known' call call'
    exact held.apart first second known known' (some_of_update_none call).2 (some_of_update_none call').2
  · intro other known call
    exact held.unknown other known (some_of_update_none call).2

theorem Faithful.addTimer (held : Faithful n) {thread : ι} {timer : Nat} {when interval clock : Int}
    {next : System ι}
    (moved : n.system.addTimer thread timer when interval clock = some next) :
    Faithful { n.note next (.addTimer thread timer when interval clock) with system := next } := by
  obtain ⟨created, acted, moved⟩ := Option.bind_eq_some_iff.mp moved
  obtain ⟨loop, ids, adding, present⟩ := act_create acted
  have after := held.act acted (fun _ _ equal => by cases equal) (fun _ equal => by cases equal)
  have newer : ∀ other id, n.created other = some id → id.sequence ≠ n.system.history.timers.numCreated + 1 := by
    intro other id call
    have bound := held.bounded call
    omega
  rw [loop] at moved
  by_cases own : thread = n.system.loop.threadId
  · rw [if_pos own] at moved
    obtain ⟨added, inserted, rfl⟩ := Option.map_eq_some_iff.mp moved
    obtain ⟨faithful, heap⟩ := after.addTimerInLoop inserted
    rw [← heap] at present
    have back := faithful.returnId ⟨timer, n.system.history.timers.numCreated + 1⟩ present rfl newer
    have same : (added.returnId timer).readId timer = added.readId timer := by
      simp only [System.returnId, System.readId, present]
    simp only [Naming.note, if_pos own, same]
    exact back.2
  · rw [if_neg own] at moved
    obtain ⟨queued, waiting, rfl⟩ := Option.map_eq_some_iff.mp moved
    obtain ⟨faithful, history, ids'⟩ := after.queueInLoop (fun _ equal => by cases equal) waiting
    have here : queued.history.timers.queue.heap timer =
        some (.create when interval (n.system.history.timers.numCreated + 1)) := by
      rw [history]
      exact present
    have later : ∀ known ∈ queued.ids, known.sequence ≠ n.system.history.timers.numCreated + 1 := by
      intro known member
      rw [ids', ids] at member
      have bound := held.known known member
      omega
    simp only [Naming.note, if_neg own]
    exact faithful.enter thread ⟨timer, n.system.history.timers.numCreated + 1⟩ here rfl newer later

theorem Faithful.added (held : Faithful n) {thread : ι} {next : System ι}
    (taken : n.system.step (.added thread) = some next) :
    Faithful { n.note next (.added thread) with system := next } := by
  simp only [System.step] at taken
  split at taken
  · rename_i timer at_
    split at taken
    · cases taken
      have call := held.adding thread
      rw [at_] at call
      obtain ⟨id, created, rfl⟩ := Option.map_eq_some_iff.mp call.symm
      obtain ⟨value, present, number⟩ := held.alive thread id created
      have others : ∀ other known, Function.update n.created thread none other = some known →
          known.sequence ≠ id.sequence := by
        intro other known call equal
        obtain ⟨mine, call⟩ := some_of_update_none call
        exact mine (held.apart other thread known id call created equal)
      simp only [Naming.note, created]
      exact ((held.leave thread).returnId id present number others).2
    · cases taken
  · cases taken

theorem Faithful.execute (held : Faithful n) {clock : Int} {next : System ι}
    (moved : n.system.execute clock = some next) : Faithful { n with system := next } := by
  obtain ⟨functor, current, moved⟩ := Option.bind_eq_some_iff.mp moved
  have done : Faithful { n with
      system := { n.system with requests := Function.update n.system.requests functor none } } := by
    refine { held with queued := ?_ }
    intro other id waiting
    by_cases own : other = functor
    · simp only [own, Function.update_self] at waiting
      cases waiting
    · simp only [Function.update_of_ne own] at waiting
      exact held.queued other id waiting
  split at moved
  · exact (done.addTimerInLoop moved).1
  · rename_i id waiting
    exact done.cancelInLoop (held.queued functor id waiting) moved
  · cases moved

theorem Faithful.step (held : Faithful n) {call : Call ι} (outlives : Outlives n call) {m : Naming ι}
    (taken : n.step call = some m) : Faithful m := by
  obtain ⟨next, moved, rfl⟩ := Option.map_eq_some_iff.mp taken
  have plain : ∀ action : Action, n.system.act action = some next → (∀ id clock, action ≠ .cancelInLoop id clock) →
      (∀ clock, action ≠ .reset clock) → Faithful { n with system := next } := by
    intro action acted noCancel noReset
    exact held.act acted (fun id clock equal => absurd equal (noCancel id clock))
      (fun clock equal => absurd equal (noReset clock))
  cases call
  case added thread => exact held.added moved
  all_goals simp only [System.step] at moved
  case elsewhere => exact plain _ moved (fun _ _ equal => by cases equal) (fun _ equal => by cases equal)
  all_goals
    split at moved
    case isFalse => cases moved
  case loop action =>
    obtain ⟨loop, _, rfl⟩ := Option.map_eq_some_iff.mp moved
    exact { held with }
  case addTimer thread timer when interval clock _ => exact held.addTimer moved
  case cancel thread id clock may =>
    unfold System.cancel at moved
    split at moved
    · exact held.cancelInLoop may.2 moved
    · refine (held.queueInLoop ?_ moved).1
      intro other equal
      cases equal
      exact may.2
  case execute clock => exact held.execute moved
  case run => exact plain _ moved (fun _ _ equal => by cases equal) (fun _ equal => by cases equal)
  case returned => exact plain _ moved (fun _ _ equal => by cases equal) (fun _ equal => by cases equal)
  case handleRead now =>
    obtain ⟨middle, read, acted⟩ := Option.bind_eq_some_iff.mp moved
    obtain ⟨faithful, _, _⟩ := held.read read
    exact faithful.act acted (fun _ _ equal => by cases equal) (fun _ equal => by cases equal)
  case reset clock =>
    obtain ⟨middle, read, acted⟩ := Option.bind_eq_some_iff.mp moved
    obtain ⟨faithful, _, history⟩ := held.read read
    refine faithful.act acted (fun _ _ equal => by cases equal) (fun reading equal => ?_)
    simp only [history]
    exact outlives

/-- Every `addTimer` returns the address and the number of the timer it has created, as long as no one-shot timer
    is deleted before its `addTimer` has returned. -/
theorem addTimer_returns_created {threadId : ι} {mapped : Bool} {numCreated : Nat}
    (run : Reaches Naming.step Outlives (Naming.initial threadId mapped numCreated) n) :
    ∀ record ∈ n.returned, record.2 = some record.1 := by
  have held : Faithful n :=
    run.keeps (Faithful.initial threadId mapped numCreated) fun _ _ _ held outlives taken => held.step outlives taken
  exact held.faithful

/-- Thread `other` has queued its timer, but has not read the number yet. -/
def queuedElsewhere (other : ι) : List (Call ι) := (addedElsewhere other).dropLast

/-- The loop runs the timer and deletes it. -/
def runsOut : List (Call ι) := [.handleRead 200, .run, .returned, .reset 201]

theorem addTimer_returns_created_twice : ∃ n : Naming (Fin 2),
    n.returned = [(⟨8, 1⟩, some ⟨8, 1⟩), (⟨8, 2⟩, some ⟨8, 2⟩)] ∧ ∀ record ∈ n.returned, record.2 = some record.1 := by
  have ran : (exec (guarded Naming.step Outlives) (Naming.initial (0 : Fin 2) true 0)
      (queuedElsewhere 1 ++ [.added 1] ++ wakesUp ++ drains ++ runsOut ++ [.addTimer 0 8 500 0 202])).map
      Naming.returned = some [(⟨8, 1⟩, some ⟨8, 1⟩), (⟨8, 2⟩, some ⟨8, 2⟩)] := by decide
  obtain ⟨n, reached, returned⟩ := Option.map_eq_some_iff.mp ran
  exact ⟨n, returned, addTimer_returns_created (exec_guarded_reaches reached)⟩

/-- The timer has run and is deleted, and its address has gone to a timer of the loop thread, before thread `1`
    reads the number back. -/
theorem addTimer_returns_other : ∃ n : Naming (Fin 2), Reaches Naming.step Any (Naming.initial 0 true 0) n ∧
    n.returned = [(⟨8, 2⟩, some ⟨8, 2⟩), (⟨8, 1⟩, some ⟨8, 2⟩)] := by
  have ran : (exec Naming.step (Naming.initial (0 : Fin 2) true 0)
      (queuedElsewhere 1 ++ wakesUp ++ drains ++ runsOut ++ [.addTimer 0 8 500 0 202, .added 1])).map
      Naming.returned = some [(⟨8, 2⟩, some ⟨8, 2⟩), (⟨8, 1⟩, some ⟨8, 2⟩)] := by decide
  obtain ⟨n, reached, returned⟩ := Option.map_eq_some_iff.mp ran
  exact ⟨n, exec_reaches reached, returned⟩

end Steps

end Hvnetpp.Timers
