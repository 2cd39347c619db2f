import Mathlib.Data.Fintype.Basic
import Mathlib.Data.Fintype.Pi
import Hvnetpp.Udp.Model

namespace Hvnetpp.Udp

open Machine

variable {ι : Type} {s t : State ι}

/-- The channel on which a `startReceive` made while the descriptor was open is going to enable reading. -/
def Functor.enabling : Functor → Option Nat
  | .enableReading channel true => some channel
  | _ => none

def Call.enabling : Call → Option Nat
  | .starting _ channel true => some channel
  | _ => none

/-- Some `startReceive`, still in progress or waiting as a functor, is going to enable reading. -/
def State.Pending (s : State ι) (channel : Nat) : Prop :=
  (∃ functor ∈ s.queue, functor.enabling = some channel) ∨ ∃ thread, (s.calls thread).enabling = some channel

def State.Open (s : State ι) (channel : Nat) : Prop :=
  ∀ sockfd, s.descriptor channel = some sockfd → s.closed sockfd = false

theorem open_iff {channel : Nat} : s.Open channel ↔ s.isClosed channel = false := by
  unfold State.Open State.isClosed
  cases s.descriptor channel <;> simp

structure Fresh (s : State ι) : Prop where
  quiet : ∀ channel, (s.channels channel).events.writing = false
  member : ∀ channel, s.channel = some channel → channel < s.numChannels
  constructed : ∀ thread place family createdSocket channel sockfd,
    s.calls thread = .binding place family createdSocket (some channel) sockfd → channel < s.numChannels
  pending : ∀ channel, s.Pending channel → channel < s.numChannels ∧ s.Open channel
  sound : s.stale = false

theorem Fresh.initial (threadId : ι) : Fresh (State.initial threadId) where
  quiet := fun _ => rfl
  member := fun _ none => nomatch none
  constructed := fun _ _ _ _ _ _ none => nomatch none
  pending := by
    rintro channel (⟨functor, waiting, _⟩ | ⟨thread, calling⟩)
    · cases waiting
    · cases calling
  sound := rfl

theorem Fresh.setReading (fresh : Fresh s) (channel : Nat) (opened reading : Bool)
    (known : reading = true → opened = true → s.Open channel) : Fresh (s.setReading channel opened reading) := by
  refine { fresh with quiet := ?_, sound := ?_ }
  · intro other
    by_cases same : other = channel
    · subst same
      simp only [State.setReading, Function.update_self, Channel.update_events]
      exact fresh.quiet other
    · simp only [State.setReading, Function.update_of_ne same]
      exact fresh.quiet other
  · have writing := fresh.quiet channel
    simp only [State.setReading, fresh.sound, Bool.false_or]
    cases reading with
    | false =>
      -- nothing is left enabled, so there is nothing to register
      have none : ({ (s.channels channel).events with reading := false } : Events) = kNoneEvent := by
        simp only [writing]
        rfl
      have issued := Channel.issued_none (c := { s.channels channel with
        events := { (s.channels channel).events with reading := false } }) none
      rcases issued with nothing | deletes
      · simp [nothing]
      · simp [deletes]
    | true =>
      cases opened with
      | false => rfl
      | true => simp [open_iff.mp (known rfl rfl)]

theorem Fresh.close (fresh : Fresh s) {sockfd : Nat}
    (drained : ∀ channel, s.Pending channel → s.descriptor channel ≠ some sockfd) : Fresh (s.close sockfd) := by
  refine { fresh with quiet := ?_, pending := ?_ }
  · intro channel
    simp only [State.close]
    split
    · exact fresh.quiet channel
    · exact fresh.quiet channel
  · intro channel pending
    obtain ⟨bound, opened⟩ := fresh.pending channel pending
    refine ⟨bound, ?_⟩
    intro other at_
    have different : other ≠ sockfd := by
      rintro rfl
      exact drained channel pending at_
    simp only [State.close, Function.update_of_ne different]
    exact opened other at_

/-- The queue is extended by functors that enable nothing. -/
theorem pending_append {functor : Functor} (none : functor.enabling = none) {channel : Nat}
    (pending : ({ s with queue := s.queue ++ [functor] } : State ι).Pending channel) : s.Pending channel := by
  rcases pending with ⟨other, waiting, enabling⟩ | calling
  · rcases List.mem_append.mp waiting with old | new
    · exact .inl ⟨other, old, enabling⟩
    · rw [List.mem_singleton.mp new, none] at enabling
      cases enabling
  · exact .inr calling

theorem Fresh.cleanup (fresh : Fresh s) (channel sockfd : Option Nat)
    (drained : ∀ number, sockfd = some number → ∀ other, s.Pending other → s.descriptor other ≠ some number) :
    Fresh (s.cleanup channel sockfd) := by
  have removed : Fresh (s.cleanup channel none) ∧ (s.cleanup channel none).descriptor = s.descriptor ∧
      ∀ other, (s.cleanup channel none).Pending other → s.Pending other := by
    cases channel with
    | none => exact ⟨fresh, rfl, fun _ pending => pending⟩
    | some channel =>
      have within : ∀ other, (s.cleanup (some channel) none).Pending other → s.Pending other := by
        intro other pending
        exact pending_append rfl pending
      refine ⟨{ fresh with quiet := ?_, pending := fun other pending => fresh.pending other (within other pending) },
        rfl, within⟩
      intro other
      by_cases same : other = channel
      · subst same
        simp only [State.cleanup, Function.update_self, Channel.remove_events, Channel.disableAll_events]
        rfl
      · simp only [State.cleanup, Function.update_of_ne same]
        exact fresh.quiet other
  cases sockfd with
  | none => exact removed.1
  | some number =>
    apply removed.1.close
    intro other pending
    rw [removed.2.1]
    exact drained number rfl other (removed.2.2 other pending)

theorem Fresh.execute (fresh : Fresh s) (functor : Functor)
    (known : ∀ channel, functor.enabling = some channel → s.Open channel)
    (drained : ∀ channel number, functor = .cleanup channel (some number) →
      ∀ other, s.Pending other → s.descriptor other ≠ some number) : Fresh (s.execute functor) := by
  cases functor with
  | enableReading channel opened =>
    apply fresh.setReading channel opened true
    intro _ early
    apply known
    rw [early]
    rfl
  | disableReading channel opened =>
    apply fresh.setReading channel opened false
    intro no
    cases no
  | cleanup channel sockfd =>
    apply fresh.cleanup channel sockfd
    rintro number rfl
    exact drained channel number rfl
  | keep channel => exact fresh

section Steps

variable [DecidableEq ι]

theorem Fresh.goto (fresh : Fresh s) (thread : ι) (place : Call)
    (enabling : ∀ channel, place.enabling = some channel → channel < s.numChannels ∧ s.Open channel)
    (constructed : ∀ at_ family createdSocket channel sockfd,
      place = .binding at_ family createdSocket (some channel) sockfd → channel < s.numChannels) :
    Fresh (s.goto thread place) := by
  refine { fresh with constructed := ?_, pending := ?_ }
  · intro other at_ family createdSocket channel sockfd calling
    by_cases same : other = thread
    · simp only [State.goto, same, Function.update_self] at calling
      exact constructed _ _ _ _ _ calling
    · simp only [State.goto, Function.update_of_ne same] at calling
      exact fresh.constructed _ _ _ _ _ _ calling
  · rintro channel (waiting | ⟨other, calling⟩)
    · exact fresh.pending channel (.inl waiting)
    · by_cases same : other = thread
      · simp only [State.goto, same, Function.update_self] at calling
        exact enabling channel calling
      · simp only [State.goto, Function.update_of_ne same] at calling
        exact fresh.pending channel (.inr ⟨other, calling⟩)

/-- The place is in no `startReceive`, and holds no channel. -/
theorem Fresh.pass (fresh : Fresh s) (thread : ι) {place : Call} (none : place.enabling = none)
    (holds : ∀ at_ family createdSocket channel sockfd,
      place ≠ .binding at_ family createdSocket (some channel) sockfd) : Fresh (s.goto thread place) := by
  apply fresh.goto thread place
  · intro channel enabling
    rw [none] at enabling
    cases enabling
  · intro at_ family createdSocket channel sockfd same
    exact absurd same (holds at_ family createdSocket channel sockfd)

theorem Fresh.leave (fresh : Fresh s) (thread : ι) : Fresh (s.goto thread .outside) :=
  fresh.pass thread rfl fun _ _ _ _ _ other => nomatch other

/-- A thread that goes to such a place makes nothing pending. -/
theorem pending_goto {thread : ι} {place : Call} (none : place.enabling = none) {channel : Nat}
    (pending : (s.goto thread place).Pending channel) : s.Pending channel := by
  rcases pending with waiting | ⟨other, calling⟩
  · exact .inl waiting
  · by_cases same : other = thread
    · simp only [State.goto, same, Function.update_self, none] at calling
      cases calling
    · simp only [State.goto, Function.update_of_ne same] at calling
      exact .inr ⟨other, calling⟩

theorem Fresh.runInLoop (fresh : Fresh s) (thread : ι) (functor : Functor)
    (known : ∀ channel, functor.enabling = some channel → channel < s.numChannels ∧ s.Open channel)
    (drained : ∀ channel number, thread = s.threadId → functor = .cleanup channel (some number) →
      ∀ other, s.Pending other → s.descriptor other ≠ some number) : Fresh (s.runInLoop thread functor) := by
  unfold State.runInLoop
  split
  · rename_i own
    exact fresh.execute functor (fun channel enabling => (known channel enabling).2)
      (fun channel number => drained channel number own)
  · refine { fresh with pending := ?_ }
    rintro channel (⟨other, waiting, enabling⟩ | calling)
    · rcases List.mem_append.mp waiting with old | new
      · exact fresh.pending channel (.inl ⟨other, old, enabling⟩)
      · rw [List.mem_singleton.mp new] at enabling
        exact known channel enabling
    · exact fresh.pending channel (.inr calling)

/-- The descriptor that `sockets::close` is called with in this step. -/
def State.closes (s : State ι) : Action ι → Option Nat
  | .destroy thread => if thread = s.threadId then s.sockfd else none
  | .advance thread _ =>
    match s.calls thread with
    | .binding .cleanup _ _ _ sockfd => if thread = s.threadId then sockfd else none
    | _ => none
  | .execute index =>
    match s.queue[index]? with
    | some (.cleanup _ sockfd) => sockfd
    | _ => none
  | _ => none

/-- A descriptor is closed only when no `startReceive` for it is in progress or waits as a functor. -/
def Drained (s : State ι) (action : Action ι) : Prop :=
  ∀ sockfd ∈ s.closes action,
    (∀ functor ∈ s.queue, ∀ channel ∈ functor.enabling, s.descriptor channel ≠ some sockfd) ∧
    ∀ thread, ∀ channel ∈ (s.calls thread).enabling, s.descriptor channel ≠ some sockfd

instance [Fintype ι] (s : State ι) (action : Action ι) : Decidable (Drained s action) :=
  inferInstanceAs (Decidable (∀ sockfd ∈ s.closes action,
    (∀ functor ∈ s.queue, ∀ channel ∈ functor.enabling, s.descriptor channel ≠ some sockfd) ∧
    ∀ thread, ∀ channel ∈ (s.calls thread).enabling, s.descriptor channel ≠ some sockfd))

theorem Drained.apart {action : Action ι} (drained : Drained s action) {sockfd : Nat}
    (closes : s.closes action = some sockfd) (channel : Nat) (pending : s.Pending channel) :
    s.descriptor channel ≠ some sockfd := by
  obtain ⟨queued, calling⟩ := drained sockfd closes
  rcases pending with ⟨functor, waiting, enabling⟩ | ⟨thread, enabling⟩
  · exact queued functor waiting channel enabling
  · exact calling thread channel enabling

theorem Fresh.start (fresh : Fresh s) {thread : ι} {place : Starting} {channel : Nat} {opened : Bool}
    (calling : s.calls thread = .starting place channel opened) : Fresh (s.start thread channel opened place) := by
  have known : opened = true → channel < s.numChannels ∧ s.Open channel := by
    rintro rfl
    exact fresh.pending channel (.inr ⟨thread, by rw [calling]; rfl⟩)
  have moves : ∀ next, Fresh (s.goto thread (.starting next channel opened)) := by
    intro next
    apply fresh.goto thread
    · intro other enabling
      cases opened with
      | false => cases enabling
      | true =>
        cases enabling
        exact known rfl
    · intro _ _ _ _ _ other
      cases other
  cases place with
  | loadBound => exact moves _
  | loadReceiving =>
    simp only [State.start]
    split
    · exact moves _
    · exact fresh.leave thread
  | check =>
    simp only [State.start]
    split
    · exact fresh.leave thread
    · exact moves _
  | store => exact { moves .submit with }
  | submit =>
    apply (fresh.leave thread).runInLoop thread
    · intro other enabling
      cases opened with
      | false => cases enabling
      | true =>
        cases enabling
        exact known rfl
    · intro _ _ _ other
      cases other

theorem Fresh.stop (fresh : Fresh s) {thread : ι} {channel : Nat} {opened : Bool} (place : Stopping) :
    Fresh (s.stop thread channel opened place) := by
  have moves : ∀ next, Fresh (s.goto thread (.stopping next channel opened)) :=
    fun _ => fresh.pass thread rfl fun _ _ _ _ _ other => nomatch other
  cases place with
  | check => exact moves _
  | store => exact { moves .submit with }
  | submit =>
    apply (fresh.leave thread).runInLoop thread
    · intro _ none
      cases none
    · intro _ _ _ other
      cases other

/-- The new object is nobody's channel yet. -/
theorem Fresh.construct (fresh : Fresh s) (thread : ι) (family : Family) (createdSocket : Bool)
    (sockfd : Option Nat) :
    Fresh { s.goto thread (.binding .setChannel family createdSocket (some s.numChannels) sockfd) with
      numChannels := s.numChannels + 1
      descriptor := Function.update s.descriptor s.numChannels s.sockfd } where
  quiet := fresh.quiet
  member := fun channel present => Nat.lt_succ_of_lt (fresh.member channel present)
  constructed := by
    intro other place family' createdSocket' channel sockfd' calling
    by_cases same : other = thread
    · simp only [State.goto, same, Function.update_self, Call.binding.injEq, Option.some.injEq] at calling
      rw [← calling.2.2.2.1]
      exact Nat.lt_succ_self _
    · simp only [State.goto, Function.update_of_ne same] at calling
      exact Nat.lt_succ_of_lt (fresh.constructed _ _ _ _ _ _ calling)
  pending := by
    intro channel pending
    obtain ⟨bound, opened⟩ := fresh.pending channel (pending_goto rfl pending)
    refine ⟨Nat.lt_succ_of_lt bound, ?_⟩
    intro number at_
    simp only [Function.update_of_ne (Nat.ne_of_lt bound)] at at_
    exact opened number at_
  sound := fresh.sound

theorem Fresh.advanceBind (fresh : Fresh s) {thread : ι} {succeeds : Bool} {place : Binding} {family : Family}
    {createdSocket : Bool} {channel sockfd : Option Nat}
    (calling : s.calls thread = .binding place family createdSocket channel sockfd)
    (drained : ∀ number, place = .cleanup → thread = s.threadId → sockfd = some number →
      ∀ other, s.Pending other → s.descriptor other ≠ some number) :
    Fresh (s.advanceBind thread succeeds family createdSocket channel sockfd place) := by
  have moves : ∀ next created local_ number, (∀ other, local_ = some other → other < s.numChannels) →
      Fresh (s.goto thread (.binding next family created local_ number)) := by
    intro next created local_ number bound
    apply fresh.goto thread
    · intro _ none
      cases none
    · intro _ _ _ other _ same
      simp only [Call.binding.injEq] at same
      exact bound other same.2.2.2.1
  have own : ∀ other, channel = some other → other < s.numChannels := by
    rintro other rfl
    exact fresh.constructed _ _ _ _ _ _ calling
  have nothing : ∀ other, (none : Option Nat) = some other → other < s.numChannels := by
    intro other none
    cases none
  cases place with
  | sockfd => exact moves _ _ _ _ own
  | ensure => exact moves _ _ _ _ own
  | family =>
    simp only [State.advanceBind]
    split
    · exact moves _ _ _ _ own
    · exact fresh.leave thread
  | create => exact { moves .created createdSocket channel sockfd own with }
  | created =>
    simp only [State.advanceBind]
    split
    · exact fresh.leave thread
    · exact moves _ _ _ _ own
  | setFamily => exact { moves .setOpened createdSocket channel sockfd own with }
  | setOpened => exact { moves .construct createdSocket channel sockfd own with }
  | construct => exact fresh.construct thread family createdSocket sockfd
  | setChannel => exact { moves .bind createdSocket none sockfd nothing with member := own }
  | bind =>
    simp only [State.advanceBind]
    split
    · exact moves _ _ _ _ own
    · split
      · exact moves _ _ _ _ own
      · exact fresh.leave thread
  | moveChannel => exact { moves .moveSockfd createdSocket s.channel sockfd fresh.member with member := nothing }
  | moveSockfd => exact moves _ _ _ _ own
  | clearFamily => exact { moves .clearSockfd createdSocket channel sockfd own with }
  | clearSockfd => exact { moves .setClosed createdSocket channel sockfd own with }
  | setClosed => exact { moves .cleanup createdSocket channel sockfd own with }
  | cleanup =>
    apply (fresh.leave thread).runInLoop thread
    · intro _ none
      cases none
    · intro _ number loop same other pending
      cases same
      exact drained number rfl loop rfl other (pending_goto rfl pending)
  | check =>
    simp only [State.advanceBind]
    split
    · exact fresh.leave thread
    · exact moves _ _ _ _ own
  | setBound => exact { fresh.leave thread with }

theorem Fresh.step (fresh : Fresh s) {action : Action ι} (drained : Drained s action)
    (taken : step s action = some t) : Fresh t := by
  cases action with
  | startReceive thread =>
    simp only [Udp.step] at taken
    split at taken
    · split at taken
      · rename_i channel present
        cases taken
        apply fresh.goto thread
        · intro other enabling
          cases closed : s.isClosed channel with
          | true => simp [closed, Call.enabling] at enabling
          | false =>
            simp only [closed, Bool.not_false, Call.enabling, Option.some.injEq] at enabling
            subst enabling
            exact ⟨fresh.member channel present, open_iff.mpr closed⟩
        · intro _ _ _ _ _ other
          cases other
      · cases taken
        exact fresh
    · cases taken
  | stopReceive thread =>
    simp only [Udp.step] at taken
    split at taken
    · split at taken
      · cases taken
        exact fresh.pass thread rfl fun _ _ _ _ _ other => nomatch other
      · cases taken
        exact fresh
    · cases taken
  | bind thread family =>
    simp only [Udp.step] at taken
    split at taken
    · cases taken
      exact fresh.pass thread rfl fun _ _ _ _ _ other => nomatch other
    · cases taken
  | advance thread succeeds =>
    simp only [Udp.step] at taken
    split at taken
    · cases taken
    · rename_i place channel opened calling
      cases taken
      exact fresh.start calling
    · cases taken
      exact fresh.stop _
    · rename_i place family createdSocket channel sockfd calling
      cases taken
      apply fresh.advanceBind calling
      rintro number rfl loop rfl
      have closes : s.closes (.advance thread succeeds) = some number := by
        simp only [State.closes, calling]
        exact if_pos loop
      exact drained.apart closes
  | destroy thread =>
    simp only [Udp.step] at taken
    split at taken
    · cases taken
      have gone : Fresh { s with alive := false, state := .closed, channel := none, sockfd := none } :=
        { fresh with member := fun _ none => nomatch none }
      apply gone.runInLoop thread
      · intro _ none
        cases none
      · intro channel number loop same other pending
        simp only [Functor.cleanup.injEq] at same
        have closes : s.closes (.destroy thread) = some number := by
          simp only [State.closes]
          rw [if_pos loop]
          exact same.2
        exact drained.apart closes other pending
    · cases taken
  | execute index =>
    simp only [Udp.step] at taken
    split at taken
    · obtain ⟨functor, at_, rfl⟩ := Option.map_eq_some_iff.mp taken
      have within : ∀ channel, ({ s with queue := s.queue.eraseIdx index } : State ι).Pending channel →
          s.Pending channel := by
        rintro channel (⟨other, waiting, enabling⟩ | calling)
        · exact .inl ⟨other, List.mem_of_mem_eraseIdx waiting, enabling⟩
        · exact .inr calling
      have erased : Fresh { s with queue := s.queue.eraseIdx index } :=
        { fresh with pending := fun channel pending => fresh.pending channel (within channel pending) }
      apply erased.execute functor
      · intro channel enabling
        exact (fresh.pending channel (.inl ⟨functor, List.mem_of_getElem? at_, enabling⟩)).2
      · rintro channel number rfl other pending
        have closes : s.closes (.execute index) = some number := by simp only [State.closes, at_]
        exact drained.apart closes other (within other pending)
    · cases taken

/-- No functor registers a descriptor closed under it, as long as descriptors are closed only when no
    `startReceive` is left to be executed. -/
theorem closed_not_registered {threadId : ι} (run : Reaches step Drained (State.initial threadId) s) :
    s.stale = false := by
  have fresh : Fresh s :=
    run.keeps (Fresh.initial threadId) fun _ _ _ fresh drained taken => fresh.step drained taken
  exact fresh.sound

/-- The socket is destroyed when no call is in progress. -/
def AfterCalls (s : State ι) : Action ι → Prop
  | .destroy _ => ∀ thread, s.calls thread = .outside
  | _ => True

instance [Fintype ι] (s : State ι) : (action : Action ι) → Decidable (AfterCalls s action)
  | .destroy _ => inferInstanceAs (Decidable (∀ thread, s.calls thread = .outside))
  | .startReceive _ | .stopReceive _ | .bind _ _ | .advance _ _ | .execute _ => isTrue trivial

/-- A whole `bind` that opens the socket, and a whole `startReceive`. -/
def bindAndStart (thread : ι) : List (Action ι) :=
  .bind thread .inet :: List.replicate 11 (.advance thread true) ++
    .startReceive thread :: List.replicate 4 (.advance thread true)

theorem closed_not_registered_drained : ∃ s : State (Fin 2), s.closed 0 = true ∧ s.queue = [.keep 0] ∧
    s.stale = false := by
  have ran : (exec (guarded step Drained) (State.initial (0 : Fin 2)) (bindAndStart 1 ++
      [.execute 0, .destroy 0])).map (fun s => (s.closed 0, s.queue)) = some (true, [.keep 0]) := by decide
  obtain ⟨s, reached, facts⟩ := Option.map_eq_some_iff.mp ran
  simp only [Prod.mk.injEq] at facts
  exact ⟨s, facts.1, facts.2, closed_not_registered (exec_guarded_reaches reached)⟩

/-- The loop thread destroys the socket before it has executed the functor of another thread's
    `startReceive`. -/
theorem closed_then_registered : ∃ s : State (Fin 2), Reaches step AfterCalls (State.initial 0) s ∧
    s.alive = false ∧ s.closed 0 = true ∧ s.stale = true := by
  have ran : (exec (guarded step AfterCalls) (State.initial (0 : Fin 2)) (bindAndStart 1 ++
      [.destroy 0, .execute 0])).map (fun s => (s.alive, s.closed 0, s.stale)) = some (false, true, true) := by
    decide
  obtain ⟨s, reached, facts⟩ := Option.map_eq_some_iff.mp ran
  simp only [Prod.mk.injEq] at facts
  exact ⟨s, exec_guarded_reaches reached, facts⟩

end Steps

end Hvnetpp.Udp
