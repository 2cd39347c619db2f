import Mathlib.Data.Fintype.Basic
import Mathlib.Data.Fintype.Pi
import Hvnetpp.Machine.Runs
import Hvnetpp.Server.Acceptor

namespace Hvnetpp.Start

open Machine Server

inductive ServerState where
  | kIdle
  | kStarting
  | kListening
  deriving DecidableEq, Repr

/-- Where a thread is in `start()`: it has found `kIdle`, stored `kStarting`, has the result of `listen()` to store,
    or loads the state it returns. `call` tells `start` on the loop thread from the functor it queues elsewhere. -/
inductive Place where
  | outside
  | store
  | submit
  | result (ok call : Bool)
  | reload
  deriving DecidableEq, Repr

/-- A `TcpServer` that is being started. `queue` counts the functors of `start` that wait; `listeners` is
    history, the number of sockets on which `::listen` has succeeded. -/
structure State (ι : Type) where
  threadId : ι
  state : ServerState
  acceptor : Acceptor
  descriptors : Descriptors
  calls : ι → Place
  queue : Nat
  returned : ι → Option ServerState
  listeners : Nat

variable {ι : Type} {s t : State ι}

def State.initial (threadId : ι) (opened : Bool) : State ι :=
  let (acceptor, descriptors) := Acceptor.create .none opened
  { threadId := threadId, state := .kIdle, acceptor := acceptor, descriptors := descriptors,
    calls := fun _ => .outside, queue := 0, returned := fun _ => none, listeners := 0 }

/-- `result` is what the system calls come to if the step calls `listen()`. -/
inductive Action (ι : Type) where
  | start (thread : ι)
  | advance (thread : ι) (result : ListenResult)
  | execute (result : ListenResult)
  deriving DecidableEq, Repr

def ofResult (ok : Bool) : ServerState := if ok then .kListening else .kIdle

section Steps

variable [DecidableEq ι]

def State.goto (s : State ι) (thread : ι) (place : Place) : State ι :=
  { s with calls := Function.update s.calls thread place }

def State.return_ (s : State ι) (thread : ι) (state : ServerState) : State ι :=
  { s.goto thread .outside with returned := Function.update s.returned thread (some state) }

/-- `acceptor->listen()` on the loop thread. -/
def State.listen (s : State ι) (result : ListenResult) (call : Bool) : State ι :=
  let (ok, acceptor, descriptors) := s.acceptor.listen s.descriptors result
  { s.goto s.threadId (.result ok call) with
    acceptor := acceptor
    descriptors := descriptors
    listeners := if acceptor.listening && !s.acceptor.listening then s.listeners + 1 else s.listeners }

def State.advance (s : State ι) (thread : ι) (result : ListenResult) : Place → Option (State ι)
  | .outside => none
  | .store => some { s.goto thread .submit with state := .kStarting }
  | .submit =>
    if thread = s.threadId then some (s.listen result true)
    else some { s.return_ thread .kStarting with queue := s.queue + 1 }
  | .result ok call => some { s.goto thread (if call then .reload else .outside) with state := ofResult ok }
  | .reload => some (s.return_ thread s.state)

/-- The loop thread executes a functor of `start` while it is in no call. -/
def step (s : State ι) : Action ι → Option (State ι)
  | .start thread =>
    if s.calls thread = .outside then
      if s.state = .kIdle then some (s.goto thread .store) else some (s.return_ thread s.state)
    else none
  | .advance thread result => s.advance thread result (s.calls thread)
  | .execute result =>
    if s.calls s.threadId = .outside ∧ 0 < s.queue then some ({ s with queue := s.queue - 1 }.listen result false)
    else none

end Steps

/-- The thread is going to store a result itself or to queue a functor that does. -/
def Place.owes : Place → Bool
  | .submit | .result _ _ => true
  | .outside | .store | .reload => false

def State.Owed (s : State ι) : Prop := 0 < s.queue ∨ ∃ thread, (s.calls thread).owes = true

/-- The descriptors: each is closed once, or it is the listening socket or the idle one. -/
structure Kept (acceptor : Acceptor) (descriptors : Descriptors) : Prop where
  closed : ∀ fd < descriptors.obtained, descriptors.closings fd = 1 ∨
    descriptors.closings fd = 0 ∧ (acceptor.acceptSocket = some fd ∨ acceptor.idleFd = some fd)
  fresh : ∀ fd, descriptors.obtained ≤ fd → descriptors.closings fd = 0
  listening : acceptor.listening = acceptor.acceptSocket.isSome

structure Listened (s : State ι) : Prop where
  loop : ∀ thread ok call, s.calls thread = .result ok call → thread = s.threadId ∧ ok = s.acceptor.listening
  once : s.listeners = if s.acceptor.listening then 1 else 0
  kept : Kept s.acceptor s.descriptors

/-- Every store of `kStarting` is followed by the store of a result, so that one of these is the last. -/
structure Agreed (s : State ι) : Prop extends Listened s where
  settled : ¬ s.Owed → s.state = ofResult s.acceptor.listening

theorem Agreed.initial (threadId : ι) (opened : Bool) : Agreed (State.initial threadId opened) where
  loop := fun _ _ _ at_ => nomatch at_
  once := by cases opened <;> rfl
  kept := by
    refine ⟨?_, fun _ _ => by cases opened <;> rfl, by cases opened <;> rfl⟩
    intro fd less
    cases opened with
    | false => cases less
    | true =>
      have first : fd = 0 := Nat.lt_one_iff.mp less
      subst first
      exact .inr ⟨rfl, .inr rfl⟩
  settled := fun _ => by cases opened <;> rfl

theorem Kept.failed {acceptor : Acceptor} {descriptors : Descriptors} (kept : Kept acceptor descriptors) :
    Kept acceptor (descriptors.acquire.close descriptors.obtained) := by
  refine ⟨?_, ?_, kept.listening⟩
  · intro fd less
    by_cases own : fd = descriptors.obtained
    · subst own
      simp [Descriptors.close, Descriptors.acquire, kept.fresh]
    · simp only [Descriptors.close, Descriptors.acquire, Function.update_of_ne own] at less ⊢
      exact kept.closed fd (by omega)
  · intro fd beyond
    simp only [Descriptors.close, Descriptors.acquire] at beyond ⊢
    rw [Function.update_of_ne (by omega)]
    exact kept.fresh fd (by omega)

theorem Kept.listens {acceptor : Acceptor} {descriptors : Descriptors} (kept : Kept acceptor descriptors)
    (before : acceptor.listening = false) :
    Kept { acceptor with acceptSocket := some descriptors.obtained, acceptChannel := some Acceptor.newChannel,
                         listening := true } descriptors.acquire := by
  have none : acceptor.acceptSocket = none := by
    rw [kept.listening, Option.isSome_eq_false_iff, Option.isNone_iff_eq_none] at before
    exact before
  refine ⟨?_, ?_, rfl⟩
  · intro fd less
    by_cases own : fd = descriptors.obtained
    · subst own
      exact .inr ⟨kept.fresh _ (Nat.le_refl _), .inl rfl⟩
    · have old : fd < descriptors.obtained := by
        simp only [Descriptors.acquire] at less
        omega
      rcases kept.closed fd old with closed | ⟨still, socket | idle⟩
      · exact .inl closed
      · rw [none] at socket
        cases socket
      · exact .inr ⟨still, .inr idle⟩
  · intro fd beyond
    simp only [Descriptors.acquire] at beyond ⊢
    exact kept.fresh fd (by omega)

section Runs

variable [DecidableEq ι]

theorem goto_owed {thread : ι} {place : Place} (owes : place.owes = true) : (s.goto thread place).Owed := by
  refine .inr ⟨thread, ?_⟩
  simp only [State.goto, Function.update_self]
  exact owes

/-- What is owed stays owed when a thread that owes nothing goes elsewhere. -/
theorem State.Owed.goto {thread : ι} {place : Place} (owed : s.Owed) (free : (s.calls thread).owes = false) :
    (s.goto thread place).Owed := by
  rcases owed with waiting | ⟨other, owes⟩
  · exact .inl waiting
  · refine .inr ⟨other, ?_⟩
    have different : other ≠ thread := by
      intro same
      rw [same, free] at owes
      cases owes
    simp only [State.goto, Function.update_of_ne different]
    exact owes

/-- A thread that owes nothing goes to a place without a result. -/
theorem Agreed.goto (agreed : Agreed s) {thread : ι} {place : Place} (free : (s.calls thread).owes = false)
    (plain : ∀ ok call, place ≠ .result ok call) : Agreed (s.goto thread place) := by
  refine ⟨⟨?_, agreed.once, agreed.kept⟩, ?_⟩
  · intro other ok call at_
    by_cases same : other = thread
    · simp only [State.goto, same, Function.update_self] at at_
      exact absurd at_ (plain ok call)
    · simp only [State.goto, Function.update_of_ne same] at at_
      exact agreed.loop other ok call at_
  · intro nothing
    exact agreed.settled fun owed => nothing (owed.goto free)

theorem Agreed.return_ (agreed : Agreed s) {thread : ι} (free : (s.calls thread).owes = false) (state : ServerState) :
    Agreed (s.return_ thread state) := by
  have left : Agreed (s.goto thread .outside) := agreed.goto free fun _ _ other => nomatch other
  exact ⟨⟨left.loop, left.once, left.kept⟩, left.settled⟩

/-- `listen()` on the loop thread, which has no other result to store. -/
theorem Listened.listen (agreed : Listened s) (free : ∀ ok call, s.calls s.threadId ≠ .result ok call)
    (result : ListenResult) (call : Bool) : Agreed (s.listen result call) := by
  have nobody : ∀ thread ok call, s.calls thread ≠ .result ok call := by
    intro thread ok call at_
    have own := (agreed.loop thread ok call at_).1
    subst own
    exact free ok call at_
  have owes : (s.goto s.threadId (.result (s.acceptor.listen s.descriptors result).1 call)).Owed := goto_owed rfl
  have owed : (s.listen result call).Owed := owes
  have places : ∀ thread ok call', (s.listen result call).calls thread = .result ok call' →
      thread = s.threadId ∧ ok = (s.acceptor.listen s.descriptors result).1 := by
    intro thread ok call' at_
    by_cases same : thread = s.threadId
    · refine ⟨same, ?_⟩
      simp only [State.listen, State.goto, same, Function.update_self, Place.result.injEq] at at_
      exact at_.1.symm
    · simp only [State.listen, State.goto, Function.update_of_ne same] at at_
      exact absurd at_ (nobody thread ok call')
  refine ⟨⟨?_, ?_, ?_⟩, fun nothing => absurd owed nothing⟩
  · intro thread ok call' at_
    obtain ⟨own, value⟩ := places thread ok call' at_
    refine ⟨own, value.trans ?_⟩
    rcases Acceptor.listen_cases s.acceptor s.descriptors result with ⟨same, on⟩ | ⟨off, same | same | same⟩
    · simp only [State.listen, same, on]
    · simp only [State.listen, same, off]
    · simp only [State.listen, same, off]
    · simp only [State.listen, same]
  · have once := agreed.once
    rcases Acceptor.listen_cases s.acceptor s.descriptors result with ⟨same, on⟩ | ⟨off, same | same | same⟩
    · simpa [State.listen, same, on] using once
    · simpa [State.listen, same, off] using once
    · simpa [State.listen, same, off] using once
    · simpa [State.listen, same, off] using once
  · have kept := agreed.kept
    rcases Acceptor.listen_cases s.acceptor s.descriptors result with ⟨same, on⟩ | ⟨off, same | same | same⟩
    · simpa only [State.listen, same] using kept
    · simpa only [State.listen, same] using kept
    · simpa only [State.listen, same] using kept.failed
    · simpa only [State.listen, same] using kept.listens off

theorem Agreed.advance (agreed : Agreed s) {thread : ι} {result : ListenResult}
    (taken : s.advance thread result (s.calls thread) = some t) : Agreed t := by
  cases at_ : s.calls thread with
  | outside =>
    rw [at_] at taken
    cases taken
  | store =>
    rw [at_] at taken
    cases taken
    have moved : Agreed (s.goto thread .submit) :=
      agreed.goto (by rw [at_]; rfl) fun _ _ other => nomatch other
    -- the state is about to be overwritten, by this thread or by its functor
    have owed : (s.goto thread .submit).Owed := goto_owed rfl
    exact ⟨⟨moved.loop, moved.once, moved.kept⟩, fun nothing => absurd owed nothing⟩
  | submit =>
    rw [at_] at taken
    simp only [State.advance] at taken
    split at taken
    · rename_i loop
      cases taken
      apply agreed.toListened.listen
      intro ok call other
      rw [← loop, at_] at other
      cases other
    · cases taken
      refine ⟨⟨?_, agreed.once, agreed.kept⟩, fun nothing => absurd (.inl (Nat.succ_pos s.queue)) nothing⟩
      intro other ok call there
      by_cases same : other = thread
      · simp only [State.return_, State.goto, same, Function.update_self] at there
        cases there
      · simp only [State.return_, State.goto, Function.update_of_ne same] at there
        exact agreed.loop other ok call there
  | result ok call =>
    rw [at_] at taken
    cases taken
    obtain ⟨_, value⟩ := agreed.loop thread ok call at_
    refine ⟨⟨?_, agreed.once, agreed.kept⟩, fun _ => congrArg ofResult value⟩
    intro other ok' call' there
    by_cases same : other = thread
    · simp only [State.goto, same, Function.update_self] at there
      cases call <;> cases there
    · simp only [State.goto, Function.update_of_ne same] at there
      exact agreed.loop other ok' call' there
  | reload =>
    rw [at_] at taken
    cases taken
    exact agreed.return_ (by rw [at_]; rfl) s.state

theorem Agreed.step (agreed : Agreed s) {action : Action ι} (taken : step s action = some t) : Agreed t := by
  cases action with
  | start thread =>
    simp only [Start.step] at taken
    split at taken
    · rename_i outside
      have free : (s.calls thread).owes = false := by rw [outside]; rfl
      split at taken
      · cases taken
        exact agreed.goto free fun _ _ other => nomatch other
      · cases taken
        exact agreed.return_ free s.state
    · cases taken
  | advance thread result => exact agreed.advance taken
  | execute result =>
    simp only [Start.step] at taken
    split at taken
    · rename_i ready
      cases taken
      have fewer : Listened { s with queue := s.queue - 1 } := ⟨agreed.loop, agreed.once, agreed.kept⟩
      apply fewer.listen
      intro ok call other
      rw [ready.1] at other
      cases other
    · cases taken

end Runs

end Hvnetpp.Start
