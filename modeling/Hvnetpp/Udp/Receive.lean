import Mathlib.Data.Fintype.Basic
import Mathlib.Data.Fintype.Pi
import Hvnetpp.Udp.Model

namespace Hvnetpp.Udp

open Machine

variable {ι : Type} {s t : State ι} {channel : Nat}

/-- The read interest of the channel after a functor that found it at `reading`. -/
def Functor.leaves (channel : Nat) (reading : Bool) : Functor → Bool
  | .enableReading other _ => if other = channel then true else reading
  | .disableReading other _ => if other = channel then false else reading
  | .cleanup other _ => if other = some channel then false else reading
  | .keep _ => reading

def State.reading (s : State ι) (channel : Nat) : Bool := (s.channels channel).isReading

/-- The read interest once all that wait are executed in their order. -/
def State.settles (s : State ι) (channel : Nat) : Bool := s.queue.foldl (Functor.leaves channel) (s.reading channel)

/-- A socket after `bind`: nothing has enabled reading, and nothing that waits is going to. -/
structure Bound (channel : Nat) (s : State ι) : Prop where
  member : s.channel = some channel
  state : s.state = .bound
  outside : ∀ thread, s.calls thread = .outside
  settles : s.settles channel = false

theorem setReading_reading (s : State ι) (other channel : Nat) (opened reading : Bool) :
    (s.setReading other opened reading).reading channel = if other = channel then reading else s.reading channel := by
  by_cases same : other = channel
  · subst same
    simp only [State.reading, State.setReading, Function.update_self, Channel.isReading, Channel.update_events,
      ↓reduceIte]
  · simp only [State.reading, State.setReading, Function.update_of_ne (Ne.symm same), if_neg same]

theorem close_reading (s : State ι) (sockfd channel : Nat) : (s.close sockfd).reading channel = s.reading channel := by
  simp only [State.reading, State.close]
  split
  · rfl
  · rfl

theorem cleanup_reading (s : State ι) (other sockfd : Option Nat) (channel : Nat) :
    (s.cleanup other sockfd).reading channel = if other = some channel then false else s.reading channel := by
  have removed : (s.cleanup other none).reading channel = if other = some channel then false else s.reading channel := by
    cases other with
    | none => rfl
    | some number =>
      by_cases same : number = channel
      · subst same
        simp only [State.reading, State.cleanup, Function.update_self, Channel.isReading, Channel.remove_events,
          Channel.disableAll_events, ↓reduceIte]
        rfl
      · have different : some number ≠ some channel := fun equal => same (Option.some.inj equal)
        simp only [State.reading, State.cleanup, Function.update_of_ne (Ne.symm same), if_neg different]
  cases sockfd with
  | none => exact removed
  | some sockfd => rw [← removed]; exact close_reading _ sockfd channel

/-- A functor does to the interest what `leaves` says, whatever waits behind it. -/
theorem execute_settles (s : State ι) (functor : Functor) (channel : Nat) :
    (s.execute functor).settles channel =
      s.queue.foldl (Functor.leaves channel) (functor.leaves channel (s.reading channel)) := by
  cases functor with
  | enableReading other opened =>
    unfold State.settles State.execute State.enableReading Functor.leaves
    rw [setReading_reading]
    rfl
  | disableReading other opened =>
    unfold State.settles State.execute State.disableReading Functor.leaves
    rw [setReading_reading]
    rfl
  | cleanup other sockfd =>
    have queue : ∀ reading, (s.cleanup other sockfd).queue.foldl (Functor.leaves channel) reading =
        s.queue.foldl (Functor.leaves channel) reading := by
      intro reading
      cases other <;> cases sockfd <;> simp [State.cleanup, State.close, Functor.leaves]
    unfold State.settles State.execute
    rw [queue, cleanup_reading]
    rfl
  | keep other => rfl

/-- What is known while a call is at this place: after its store, the functor it is going to submit decides. -/
def State.Expects (s : State ι) (channel : Nat) : Call → Prop
  | .outside => True
  | .starting .submit other _ => other = channel ∧ s.state = .receiving
  | .starting _ other _ => other = channel ∧ s.settles channel = decide (s.state = .receiving)
  | .stopping .submit other _ => other = channel ∧ s.state ≠ .receiving
  | .stopping _ other _ => other = channel ∧ s.settles channel = decide (s.state = .receiving)
  | .binding _ _ _ _ _ => False

structure InStep (channel : Nat) (s : State ι) : Prop where
  member : s.channel = some channel
  single : ∀ first second, s.calls first ≠ .outside → s.calls second ≠ .outside → first = second
  own : s.calls s.threadId ≠ .outside → s.queue = []
  expects : ∀ thread, s.Expects channel (s.calls thread)
  idle : (∀ thread, s.calls thread = .outside) → s.settles channel = decide (s.state = .receiving)

theorem Bound.inStep (bound : Bound channel s) : InStep channel s where
  member := bound.member
  single := fun first _ calling => absurd (bound.outside first) calling
  own := fun calling => absurd (bound.outside s.threadId) calling
  expects := by
    intro thread
    rw [bound.outside thread]
    trivial
  idle := by
    intro _
    rw [bound.settles, bound.state]
    rfl

theorem execute_frame (s : State ι) (functor : Functor) :
    (s.execute functor).calls = s.calls ∧ (s.execute functor).channel = s.channel ∧
      (s.execute functor).state = s.state ∧ (s.execute functor).threadId = s.threadId := by
  cases functor with
  | enableReading channel opened => exact ⟨rfl, rfl, rfl, rfl⟩
  | disableReading channel opened => exact ⟨rfl, rfl, rfl, rfl⟩
  | cleanup channel sockfd => cases channel <;> cases sockfd <;> exact ⟨rfl, rfl, rfl, rfl⟩
  | keep channel => exact ⟨rfl, rfl, rfl, rfl⟩

theorem InStep.alone (held : InStep channel s) {thread : ι} (calling : s.calls thread ≠ .outside) (other : ι)
    (different : other ≠ thread) : s.calls other = .outside := by
  by_contra inside
  exact different (held.single other thread inside calling)

theorem InStep.ownCall (held : InStep channel s) {thread : ι} (calling : s.calls thread ≠ .outside)
    (loop : thread = s.threadId) : s.queue = [] := by
  subst loop
  exact held.own calling

/-- What a call expects depends on `state_` and on what the queue settles. -/
theorem Expects.frame {call : Call} (expects : s.Expects channel call) (state : t.state = s.state)
    (settles : t.settles channel = s.settles channel) : t.Expects channel call := by
  cases call with
  | outside => trivial
  | starting place other opened => cases place <;> simpa only [State.Expects, state, settles] using expects
  | stopping place other opened => cases place <;> simpa only [State.Expects, state, settles] using expects
  | binding place family createdSocket other sockfd => exact expects.elim

/-- The functor at the front is executed while the loop thread is in no call. -/
theorem InStep.execute (held : InStep channel s) (outside : s.calls s.threadId = .outside) {functor : Functor}
    {rest : List Functor} (front : s.queue = functor :: rest) :
    InStep channel (({ s with queue := rest } : State ι).execute functor) := by
  obtain ⟨calls, member, state, threadId⟩ := execute_frame ({ s with queue := rest } : State ι) functor
  have settles : (({ s with queue := rest } : State ι).execute functor).settles channel = s.settles channel := by
    rw [execute_settles, State.settles, front]
    rfl
  refine { member := member.trans held.member, single := ?_, own := ?_, expects := ?_, idle := ?_ }
  · rw [calls]
    exact held.single
  · rw [calls, threadId]
    exact fun calling => absurd outside calling
  · intro thread
    rw [calls]
    exact Expects.frame (held.expects thread) state settles
  · rw [calls, settles, state]
    exact held.idle

section Steps

variable [DecidableEq ι]

/-- Calls do not overlap, the loop thread makes one only when no functor waits, and functors are executed in
    the order in which they were queued. -/
def InTurn (s : State ι) : Action ι → Prop
  | .startReceive thread => (∀ other, s.calls other = .outside) ∧ (thread = s.threadId → s.queue = [])
  | .stopReceive thread => (∀ other, s.calls other = .outside) ∧ (thread = s.threadId → s.queue = [])
  | .advance _ _ => True
  | .execute index => index = 0
  | .bind _ _ => False
  | .destroy _ => False

instance [Fintype ι] (s : State ι) : (action : Action ι) → Decidable (InTurn s action)
  | .startReceive thread =>
    inferInstanceAs (Decidable ((∀ other, s.calls other = .outside) ∧ (thread = s.threadId → s.queue = [])))
  | .stopReceive thread =>
    inferInstanceAs (Decidable ((∀ other, s.calls other = .outside) ∧ (thread = s.threadId → s.queue = [])))
  | .advance _ _ => isTrue trivial
  | .execute index => inferInstanceAs (Decidable (index = 0))
  | .bind _ _ => isFalse id
  | .destroy _ => isFalse id

/-- The only thread that may be in a call goes to `place`, and `state_` may have changed with it. -/
theorem InStep.goto (held : InStep channel s) {thread : ι}
    (alone : ∀ other, other ≠ thread → s.calls other = .outside) (own : thread = s.threadId → s.queue = [])
    (place : Call) (state : SocketState)
    (expects : ({ s with state := state } : State ι).Expects channel place)
    (idle : place = .outside → s.settles channel = decide (state = .receiving)) :
    InStep channel { s.goto thread place with state := state } where
  member := held.member
  single := by
    have calling : ∀ other, Function.update s.calls thread place other ≠ .outside → other = thread := by
      intro other calling
      by_contra different
      rw [Function.update_of_ne different] at calling
      exact calling (alone other different)
    intro first second left right
    rw [calling first left, calling second right]
  own := by
    intro calling
    by_cases same : s.threadId = thread
    · exact own same.symm
    · simp only [State.goto, Function.update_of_ne same] at calling
      exact absurd (alone _ same) calling
  expects := by
    intro other
    by_cases same : other = thread
    · simp only [State.goto, same, Function.update_self]
      exact expects
    · simp only [State.goto, Function.update_of_ne same, alone other same]
      trivial
  idle := by
    intro all
    have last := all thread
    simp only [State.goto, Function.update_self] at last
    exact idle last

/-- The last step of a call: its functor is executed at once, with nothing waiting, or waits as the last one. -/
theorem runInLoop_settles (s : State ι) (thread : ι) (functor : Functor) (own : thread = s.threadId → s.queue = []) :
    (s.runInLoop thread functor).settles channel = functor.leaves channel (s.settles channel) := by
  unfold State.runInLoop
  split
  · rename_i loop
    rw [execute_settles, State.settles, own loop]
    rfl
  · simp only [State.settles, State.reading, List.foldl_append, List.foldl_cons, List.foldl_nil]

theorem runInLoop_frame (s : State ι) (thread : ι) (functor : Functor) :
    (s.runInLoop thread functor).calls = s.calls ∧ (s.runInLoop thread functor).channel = s.channel ∧
      (s.runInLoop thread functor).state = s.state := by
  unfold State.runInLoop
  split
  · obtain ⟨calls, channel, state, _⟩ := execute_frame s functor
    exact ⟨calls, channel, state⟩
  · exact ⟨rfl, rfl, rfl⟩

theorem InStep.submit (held : InStep channel s) {thread : ι}
    (alone : ∀ other, other ≠ thread → s.calls other = .outside) (own : thread = s.threadId → s.queue = [])
    {functor : Functor} (decides : functor.leaves channel (s.settles channel) = decide (s.state = .receiving)) :
    InStep channel ((s.goto thread .outside).runInLoop thread functor) := by
  obtain ⟨calls, member, state⟩ := runInLoop_frame (s.goto thread .outside) thread functor
  have outside : ∀ other, ((s.goto thread .outside).runInLoop thread functor).calls other = .outside := by
    intro other
    rw [calls]
    by_cases same : other = thread
    · simp only [State.goto, same, Function.update_self]
    · simp only [State.goto, Function.update_of_ne same, alone other same]
  exact
    { member := member.trans held.member
      single := fun first _ calling => absurd (outside first) calling
      own := fun calling => absurd (outside _) calling
      expects := by
        intro other
        rw [outside other]
        trivial
      idle := by
        intro _
        rw [runInLoop_settles (s.goto thread .outside) thread functor own, state]
        exact decides }

theorem InStep.start (held : InStep channel s) {thread : ι} {place : Starting} {other : Nat} {opened : Bool}
    (calling : s.calls thread = .starting place other opened) :
    InStep channel (s.start thread other opened place) := by
  have alone := held.alone (by rw [calling]; exact Call.noConfusion)
  have own := held.ownCall (by rw [calling]; exact Call.noConfusion)
  have expects := held.expects thread
  rw [calling] at expects
  -- only the store changes `state_`, so elsewhere the expectation is carried to the next place
  cases place with
  | loadBound =>
    apply held.goto alone own _ s.state
    · split
      · exact expects
      · exact expects
    · intro no
      cases no
  | loadReceiving =>
    apply held.goto alone own _ s.state
    · split
      · exact expects
      · trivial
    · intro _
      exact expects.2
  | check =>
    apply held.goto alone own _ s.state
    · split
      · trivial
      · exact expects
    · intro _
      exact expects.2
  | store =>
    apply held.goto alone own (.starting .submit other opened) .receiving
    · exact ⟨expects.1, rfl⟩
    · intro no
      cases no
  | submit =>
    apply held.submit alone own
    simp only [Functor.leaves, expects.1, expects.2, ↓reduceIte, decide_true]

theorem InStep.stop (held : InStep channel s) {thread : ι} {place : Stopping} {other : Nat} {opened : Bool}
    (calling : s.calls thread = .stopping place other opened) :
    InStep channel (s.stop thread other opened place) := by
  have alone := held.alone (by rw [calling]; exact Call.noConfusion)
  have own := held.ownCall (by rw [calling]; exact Call.noConfusion)
  have expects := held.expects thread
  rw [calling] at expects
  cases place with
  | check =>
    apply held.goto alone own _ s.state
    · split
      · exact expects
      · rename_i different
        exact ⟨expects.1, different⟩
    · intro no
      cases no
  | store =>
    apply held.goto alone own (.stopping .submit other opened) .bound
    · refine ⟨expects.1, ?_⟩
      intro no
      cases no
    · intro no
      cases no
  | submit =>
    apply held.submit alone own
    simp only [Functor.leaves, expects.1, expects.2, ↓reduceIte, decide_false]

/-- A call begins while no other is in progress. -/
theorem InStep.enter (held : InStep channel s) {thread : ι} (quiet : ∀ other, s.calls other = .outside)
    (own : thread = s.threadId → s.queue = []) (place : Call)
    (expects : s.settles channel = decide (s.state = .receiving) → s.Expects channel place)
    (inside : place ≠ .outside) : InStep channel (s.goto thread place) := by
  apply held.goto (fun other _ => quiet other) own place s.state
  · exact expects (held.idle quiet)
  · intro outside
    exact absurd outside inside

theorem InStep.step (held : InStep channel s) {action : Action ι} (turn : InTurn s action)
    (taken : step s action = some t) : InStep channel t := by
  cases action with
  | startReceive thread =>
    simp only [Udp.step, held.member] at taken
    split at taken
    · cases taken
      apply held.enter turn.1 turn.2
      · exact fun settled => ⟨rfl, settled⟩
      · exact Call.noConfusion
    · cases taken
  | stopReceive thread =>
    simp only [Udp.step, held.member] at taken
    split at taken
    · cases taken
      apply held.enter turn.1 turn.2
      · exact fun settled => ⟨rfl, settled⟩
      · exact Call.noConfusion
    · cases taken
  | bind thread family => exact turn.elim
  | destroy thread => exact turn.elim
  | advance thread succeeds =>
    simp only [Udp.step] at taken
    split at taken
    · cases taken
    · rename_i calling
      cases taken
      exact held.start calling
    · rename_i calling
      cases taken
      exact held.stop calling
    · rename_i calling
      have expects := held.expects thread
      rw [calling] at expects
      exact expects.elim
  | execute index =>
    simp only [InTurn] at turn
    subst turn
    simp only [Udp.step] at taken
    split at taken
    · rename_i outside
      obtain ⟨functor, at_, rfl⟩ := Option.map_eq_some_iff.mp taken
      cases front : s.queue with
      | nil => simp [front] at at_
      | cons first rest =>
        simp only [front, List.getElem?_cons_zero, Option.some.injEq] at at_
        subst at_
        exact held.execute outside front
    · cases taken

/-- Read interest and `state_` agree when nothing is left to be done, as long as calls neither overlap nor
    overtake waiting functors. -/
theorem reading_iff_receiving {start : State ι} (bound : Bound channel start) (run : Reaches step InTurn start s)
    (outside : ∀ thread, s.calls thread = .outside) (executed : s.queue = []) :
    s.reading channel = true ↔ s.state = .receiving := by
  have held : InStep channel s := run.keeps bound.inStep fun _ _ _ held turn taken => held.step turn taken
  have settled := held.idle outside
  simp only [State.settles, executed, List.foldl_nil] at settled
  rw [settled, decide_eq_true_eq]

/-- A whole `bind` that opens the socket. -/
def wholeBind (thread : ι) (family : Family) : List (Action ι) :=
  .bind thread family :: List.replicate 11 (.advance thread true)

theorem wholeBind_bound (threadId thread : ι) (family : Family) :
    ∃ s, exec step (State.initial threadId) (wholeBind thread family) = some s ∧ Bound 0 s := by
  refine ⟨_, by simp [wholeBind, List.replicate, step, State.initial, State.goto, State.advanceBind]; rfl, ?_⟩
  exact { member := rfl, state := rfl, outside := by simp, settles := rfl }

theorem reading_iff_receiving_started : ∃ start s : State (Fin 2), Reaches step Any (State.initial 0) start ∧
    Bound 0 start ∧ Reaches step InTurn start s ∧ s.state = .receiving ∧
    (s.reading 0 = true ↔ s.state = .receiving) := by
  obtain ⟨start, reached, bound⟩ := wholeBind_bound (0 : Fin 2) 1 .inet
  have ran : ((exec step (State.initial (0 : Fin 2)) (wholeBind 1 .inet)).bind fun start =>
      exec (guarded step InTurn) start (.startReceive 1 :: List.replicate 4 (.advance 1 true) ++ [.execute 0])).map
      (fun s => (decide (∀ thread, s.calls thread = .outside), s.queue, s.state)) = some (true, [], .receiving) := by
    decide
  rw [reached, Option.bind_some] at ran
  obtain ⟨s, started, facts⟩ := Option.map_eq_some_iff.mp ran
  simp only [Prod.mk.injEq, decide_eq_true_eq] at facts
  have run := exec_guarded_reaches started
  exact ⟨start, s, exec_reaches reached, bound, run, facts.2.2,
    reading_iff_receiving bound run facts.1 facts.2.1⟩

/-- Only `startReceive` and `stopReceive` are called, and functors are executed in their order. -/
def ReceiveOnly (_ : State ι) : Action ι → Prop
  | .bind _ _ => False
  | .destroy _ => False
  | .execute index => index = 0
  | _ => True

instance (s : State ι) : (action : Action ι) → Decidable (ReceiveOnly s action)
  | .bind _ _ | .destroy _ => isFalse id
  | .execute index => inferInstanceAs (Decidable (index = 0))
  | .startReceive _ | .stopReceive _ | .advance _ _ => isTrue trivial

/-- The loop thread stops receiving before it has executed the functor of another thread's `startReceive`. -/
theorem reading_after_stop : ∃ start s : State (Fin 2), Reaches step Any (State.initial 0) start ∧
    Bound 0 start ∧ Reaches step ReceiveOnly start s ∧ (∀ thread, s.calls thread = .outside) ∧ s.queue = [] ∧
    s.state = .bound ∧ s.reading 0 = true := by
  obtain ⟨start, reached, bound⟩ := wholeBind_bound (0 : Fin 2) 1 .inet
  have ran : ((exec step (State.initial (0 : Fin 2)) (wholeBind 1 .inet)).bind fun start =>
      exec (guarded step ReceiveOnly) start (.startReceive 1 :: List.replicate 4 (.advance 1 true) ++
        .stopReceive 0 :: List.replicate 3 (.advance 0 true) ++ [.execute 0])).map
      (fun s => (decide (∀ thread, s.calls thread = .outside), s.queue, s.state, s.reading 0)) =
        some (true, [], .bound, true) := by
    decide
  rw [reached, Option.bind_some] at ran
  obtain ⟨s, stopped, facts⟩ := Option.map_eq_some_iff.mp ran
  simp only [Prod.mk.injEq, decide_eq_true_eq] at facts
  exact ⟨start, s, exec_reaches reached, bound, exec_guarded_reaches stopped, facts⟩

end Steps

end Hvnetpp.Udp
